import AdviceCompiler.Proofs.BindingPositions

/-!
# Declaring an advice

An advice is declared step by step, and each place in it is filled once: a
position keeps the first binding offered to it, and the pointcut is the first
one offered.  A refused step changes nothing.  Several bindings at once are
accepted exactly if their positions are distinct and free, and then their order
makes no difference.
-/

namespace AdviceCompiler

namespace DeclarationStep

/-- The binding that a step offers to a position. -/
def offer? (position : Nat) : DeclarationStep → Option Binding
  | .bind place binding => if place = position then some binding else none
  | .annotate place tag index =>
      if place = position then (Binding.ofAnnotation tag index).toOption else none
  | .setPointcut _ => none

/-- The pointcut that a step offers. -/
def pointcut? : DeclarationStep → Option Method
  | .setPointcut pointcut => some pointcut
  | _ => none

end DeclarationStep

theorem Binding.ofAnnotation_eq_error_iff {tag : String} {index : Option Nat}
    {failure : DeclarationError} :
    Binding.ofAnnotation tag index = .error failure ↔
      tag = "Argument" ∧ index = none ∧ failure = .missingIndex tag ∨
        tag ∉ ["This", "Argument", "Return"] ∧ failure = .unknownTag tag := by
  unfold Binding.ofAnnotation
  split
  · simp
  · cases index <;> simp [eq_comm]
  · simp
  · next hthis hargument hresult =>
      have hthis : tag ≠ "This" := hthis
      have hargument : tag ≠ "Argument" := hargument
      have hresult : tag ≠ "Return" := hresult
      simp [hthis, hargument, hresult, eq_comm]

namespace Advice

variable {advice next result : Advice} {position : Nat} {binding : Binding}
variable {entries : List (Nat × Binding)} {step : DeclarationStep}

/-- The positions that are bound. -/
def positions (advice : Advice) : List Nat :=
  advice.bindings.map Prod.fst

theorem ascending_positions (advice : Advice) : advice.positions.Pairwise (· < ·) :=
  List.pairwise_map.mpr advice.ascending

theorem nodup_positions (advice : Advice) : advice.positions.Nodup :=
  advice.ascending_positions.imp Nat.ne_of_lt

theorem mem_positions_iff :
    position ∈ advice.positions ↔ ∃ binding, advice.binding? position = some binding := by
  rw [positions, List.mem_map]
  constructor
  · rintro ⟨⟨_, binding⟩, hentry, rfl⟩
    exact ⟨binding, binding?_of_mem hentry⟩
  · rintro ⟨binding, hbinding⟩
    exact ⟨(position, binding), mem_bindings_iff.mpr hbinding, rfl⟩

theorem binding?_of_free (hfree : position ∉ advice.positions) :
    advice.binding? position = none := by
  cases hbinding : advice.binding? position with
  | none => rfl
  | some binding => exact absurd (mem_positions_iff.mpr ⟨binding, hbinding⟩) hfree

theorem perm_insertBinding_append (position : Nat) (binding : Binding)
    (bindings entries : List (Nat × Binding)) :
    (insertBinding position binding bindings ++ entries).Perm
      (bindings ++ (position, binding) :: entries) := by
  induction bindings with
  | nil => exact .refl _
  | cons entry rest ih =>
      rw [insertBinding]
      split
      · exact List.perm_middle.symm
      · exact ih.cons entry

/-- A binding of a free position is found there and hides no other. -/
theorem binding?_of_insertBinding
    (hbindings : next.bindings = insertBinding position binding advice.bindings)
    (hfree : position ∉ advice.positions) (other : Nat) :
    next.binding? other =
      (advice.binding? other).or (if position = other then some binding else none) := by
  refine Option.ext fun found => ?_
  rw [← mem_bindings_iff, hbindings, mem_insertBinding, mem_bindings_iff, Option.or_eq_some_iff]
  by_cases hother : position = other
  · subst hother
    simp [binding?_of_free hfree, eq_comm]
  · simp [hother, Ne.symm hother]

theorem bind_of_bound (hbound : position ∈ advice.positions) (binding : Binding) :
    advice.bind position binding = .error (.positionBound position) := by
  obtain ⟨kept, hkept⟩ := mem_positions_iff.mp hbound
  unfold bind
  split
  · rfl
  · next hfree =>
      rw [hkept] at hfree
      cases hfree

/-- A free position is bound, and nothing else changes. -/
theorem bind_of_free (hfree : position ∉ advice.positions) (binding : Binding) :
    ∃ hascending : Ascending (insertBinding position binding advice.bindings),
      advice.bind position binding =
        .ok { advice with
          bindings := insertBinding position binding advice.bindings
          ascending := hascending } := by
  have hnone := binding?_of_free hfree
  refine ⟨ascending_insertBinding binding advice.ascending hnone, ?_⟩
  unfold bind
  split
  · next hsome =>
      rw [hsome] at hnone
      cases hnone
  · rfl

/-! ### One step after the other -/

/-- Why an advice refuses a step. -/
inductive Refuses (advice : Advice) : DeclarationStep → DeclarationError → Prop
  | bound {position : Nat} {binding : Binding} (hbound : position ∈ advice.positions) :
      Refuses advice (.bind position binding) (.positionBound position)
  | unknownTag {position : Nat} {tag : String} {index : Option Nat}
      (htag : tag ∉ ["This", "Argument", "Return"]) :
      Refuses advice (.annotate position tag index) (.unknownTag tag)
  | missingIndex {position : Nat} :
      Refuses advice (.annotate position "Argument" none) (.missingIndex "Argument")
  | annotated {position : Nat} {tag : String} {index : Option Nat} {binding : Binding}
      (hread : Binding.ofAnnotation tag index = .ok binding)
      (hbound : position ∈ advice.positions) :
      Refuses advice (.annotate position tag index) (.positionBound position)
  | pointcutSet {pointcut kept : Method} (hset : advice.pointcut = some kept) :
      Refuses advice (.setPointcut pointcut) (.pointcutSet advice.method.name)

/-- `later` is `earlier` with its free places filled by what was offered. -/
structure Receives (earlier : Advice) (offer? : Nat → Option Binding)
    (pointcut? : Option Method) (later : Advice) : Prop where
  kind : later.kind = earlier.kind
  method : later.method = earlier.method
  signature : later.signature = earlier.signature
  bindings : ∀ position,
    later.binding? position = (earlier.binding? position).or (offer? position)
  pointcut : later.pointcut = earlier.pointcut.or pointcut?

theorem receives_nothing (advice : Advice) : advice.Receives (fun _ => none) none advice :=
  ⟨rfl, rfl, rfl, fun _ => Option.or_none.symm, Option.or_none.symm⟩

theorem Receives.trans {first second : Nat → Option Binding} {before after : Option Method}
    (hfirst : advice.Receives first before next)
    (hsecond : next.Receives second after result) :
    advice.Receives (fun position => (first position).or (second position))
      (before.or after) result where
  kind := hsecond.kind.trans hfirst.kind
  method := hsecond.method.trans hfirst.method
  signature := hsecond.signature.trans hfirst.signature
  bindings position := by rw [hsecond.bindings, hfirst.bindings, Option.or_assoc]
  pointcut := by rw [hsecond.pointcut, hfirst.pointcut, Option.or_assoc]

theorem bind_eq_error_iff {failure : DeclarationError} :
    advice.bind position binding = .error failure ↔
      position ∈ advice.positions ∧ failure = .positionBound position := by
  by_cases hposition : position ∈ advice.positions
  · simp [bind_of_bound hposition, hposition, eq_comm]
  · obtain ⟨hascending, hbind⟩ := bind_of_free hposition binding
    simp [hbind, hposition]

theorem receives_bind (hnext : advice.bind position binding = .ok next) :
    advice.Receives (fun other => if position = other then some binding else none) none next := by
  by_cases hposition : position ∈ advice.positions
  · rw [bind_of_bound hposition] at hnext
    cases hnext
  · obtain ⟨hascending, hbind⟩ := bind_of_free hposition binding
    rw [hbind] at hnext
    cases hnext
    exact ⟨rfl, rfl, rfl, binding?_of_insertBinding rfl hposition, Option.or_none.symm⟩

theorem bindAnnotation_of_ok {tag : String} {index : Option Nat}
    (hread : Binding.ofAnnotation tag index = .ok binding) :
    Advice.bindAnnotation advice position tag index = advice.bind position binding := by
  unfold bindAnnotation
  rw [hread]

theorem bindAnnotation_of_error {tag : String} {index : Option Nat} {failure : DeclarationError}
    (hread : Binding.ofAnnotation tag index = .error failure) :
    Advice.bindAnnotation advice position tag index = .error failure := by
  unfold bindAnnotation
  rw [hread]

theorem receives_attempt (hattempt : advice.attempt step = .ok next) :
    advice.Receives (step.offer? ·) step.pointcut? next := by
  cases step with
  | bind position binding => exact receives_bind hattempt
  | annotate position tag index =>
      rw [attempt] at hattempt
      cases hread : Binding.ofAnnotation tag index with
      | ok binding =>
          rw [bindAnnotation_of_ok hread] at hattempt
          simp only [DeclarationStep.offer?, hread]
          exact receives_bind hattempt
      | error failure =>
          rw [bindAnnotation_of_error hread] at hattempt
          cases hattempt
  | setPointcut pointcut =>
      rw [attempt, setPointcut] at hattempt
      split at hattempt
      · cases hattempt
      · next hunset =>
          cases hattempt
          refine ⟨rfl, rfl, rfl, fun _ => Option.or_none.symm, ?_⟩
          rw [hunset]
          rfl

theorem refuses_of_attempt {failure : DeclarationError}
    (hattempt : advice.attempt step = .error failure) : advice.Refuses step failure := by
  cases step with
  | bind position binding =>
      obtain ⟨hbound, rfl⟩ := bind_eq_error_iff.mp hattempt
      exact .bound hbound
  | annotate position tag index =>
      rw [attempt] at hattempt
      cases hread : Binding.ofAnnotation tag index with
      | ok binding =>
          rw [bindAnnotation_of_ok hread] at hattempt
          obtain ⟨hbound, rfl⟩ := bind_eq_error_iff.mp hattempt
          exact .annotated hread hbound
      | error unread =>
          rw [bindAnnotation_of_error hread] at hattempt
          cases hattempt
          obtain ⟨rfl, rfl, rfl⟩ | ⟨htag, rfl⟩ := Binding.ofAnnotation_eq_error_iff.mp hread
          · exact .missingIndex
          · exact .unknownTag htag
  | setPointcut pointcut =>
      rw [attempt, setPointcut] at hattempt
      split at hattempt
      · next hset =>
          cases hattempt
          exact .pointcutSet hset
      · cases hattempt

theorem Refuses.attempt_eq {failure : DeclarationError} (hrefuses : advice.Refuses step failure) :
    advice.attempt step = .error failure := by
  cases hrefuses with
  | bound hbound => exact bind_of_bound hbound _
  | unknownTag htag =>
      exact bindAnnotation_of_error (Binding.ofAnnotation_eq_error_iff.mpr (.inr ⟨htag, rfl⟩))
  | missingIndex => rfl
  | annotated hread hbound =>
      exact (bindAnnotation_of_ok hread).trans (bind_of_bound hbound _)
  | pointcutSet hset => simp only [attempt, setPointcut, hset]

/-- What is offered to a bound position has no effect. -/
theorem binding?_or_of_bound (hbound : position ∈ advice.positions) (offered : Option Binding)
    (other : Nat) :
    advice.binding? other =
      (advice.binding? other).or (if position = other then offered else none) := by
  by_cases hother : position = other
  · subst hother
    obtain ⟨kept, hkept⟩ := mem_positions_iff.mp hbound
    rw [hkept, Option.some_or]
  · simp [hother]

/-- A refused step offers nothing, or only for places that are taken. -/
theorem Refuses.receives {failure : DeclarationError} (hrefuses : advice.Refuses step failure) :
    advice.Receives (step.offer? ·) step.pointcut? advice := by
  have hunread : ∀ {tag index unread}, Binding.ofAnnotation tag index = .error unread →
      ∀ position, advice.Receives
        (DeclarationStep.offer? · (.annotate position tag index)) none advice := by
    intro tag index unread hread position
    simpa [DeclarationStep.offer?, hread, Except.toOption] using advice.receives_nothing
  cases hrefuses with
  | bound hbound =>
      exact ⟨rfl, rfl, rfl, binding?_or_of_bound hbound _, Option.or_none.symm⟩
  | unknownTag htag =>
      exact hunread (Binding.ofAnnotation_eq_error_iff.mpr (Or.inr ⟨htag, rfl⟩)) _
  | missingIndex => exact hunread rfl _
  | annotated hread hbound =>
      exact ⟨rfl, rfl, rfl, binding?_or_of_bound hbound _, Option.or_none.symm⟩
  | pointcutSet hset =>
      refine ⟨rfl, rfl, rfl, fun _ => Option.or_none.symm, ?_⟩
      rw [hset, Option.some_or]

/-- A step fills what is free with what it offers, also if it is refused. -/
theorem receives_perform (advice : Advice) (step : DeclarationStep) :
    advice.Receives (step.offer? ·) step.pointcut? (advice.perform step).2 := by
  rw [perform]
  cases hattempt : advice.attempt step with
  | ok next => exact receives_attempt hattempt
  | error failure => exact (refuses_of_attempt hattempt).receives

theorem perform_eq_refused_iff {failure : DeclarationError} :
    (advice.perform step).1 = some failure ↔ advice.Refuses step failure := by
  constructor
  · intro hrefused
    rw [perform] at hrefused
    split at hrefused
    · cases hrefused
    · next hattempt =>
        cases hrefused
        exact refuses_of_attempt hattempt
  · intro hrefuses
    rw [perform, hrefuses.attempt_eq]

theorem Refuses.perform_snd {failure : DeclarationError} (hrefuses : advice.Refuses step failure) :
    (advice.perform step).2 = advice := by
  rw [perform, hrefuses.attempt_eq]

/-- The advice after some steps. -/
def after (advice : Advice) (steps : List DeclarationStep) : Advice :=
  steps.foldl (fun current step => (current.perform step).2) advice

theorem after_append (advice : Advice) (earlier later : List DeclarationStep) :
    advice.after (earlier ++ later) = (advice.after earlier).after later :=
  List.foldl_append

/-- The first offer counts, for each position and for the pointcut. -/
theorem receives_after (advice : Advice) (steps : List DeclarationStep) :
    advice.Receives (fun position => steps.findSome? (DeclarationStep.offer? position))
      (steps.findSome? DeclarationStep.pointcut?) (advice.after steps) := by
  induction steps generalizing advice with
  | nil => exact advice.receives_nothing
  | cons step rest ih =>
      have hcons : ∀ {β : Type} (offer : DeclarationStep → Option β),
          (step :: rest).findSome? offer = (offer step).or (rest.findSome? offer) := by
        intro β offer
        rw [List.findSome?_cons]
        cases offer step <;> rfl
      simp only [hcons]
      exact (advice.receives_perform step).trans (ih (advice.perform step).2)

/-! ### Several bindings at once -/

/-- `entry` is the first of the entries whose position is taken when its turn
comes, by an earlier entry or from the start. -/
def FirstTaken (taken : List Nat) (entries : List (Nat × Binding)) (entry : Nat × Binding) :
    Prop :=
  ∃ before after, entries = before ++ entry :: after ∧
    (taken ++ before.map Prod.fst).Nodup ∧ entry.1 ∈ taken ++ before.map Prod.fst

theorem FirstTaken.not_nodup {taken : List Nat} {entry : Nat × Binding}
    (hfirst : FirstTaken taken entries entry) : ¬ (taken ++ entries.map Prod.fst).Nodup := by
  obtain ⟨before, after, rfl, -, htaken⟩ := hfirst
  intro hnodup
  rw [List.map_append, List.map_cons, ← List.append_assoc] at hnodup
  exact (List.nodup_append.mp hnodup).2.2 entry.1 htaken entry.1 List.mem_cons_self rfl

theorem bindAll_append (advice : Advice) (first second : List (Nat × Binding)) :
    advice.bindAll (first ++ second) =
      match advice.bindAll first with
      | .ok next => next.bindAll second
      | .error failure => .error failure := by
  induction first generalizing advice with
  | nil => rfl
  | cons entry rest ih =>
      rw [List.cons_append, bindAll, bindAll]
      cases advice.bind entry.1 entry.2 with
      | ok next => exact ih next
      | error failure => rfl

/-- Entries that are all accepted join the bindings, and nothing else changes. -/
theorem bindAll_eq_ok (hresult : advice.bindAll entries = .ok result) :
    ∃ (bindings : List (Nat × Binding)) (hascending : Ascending bindings),
      result = { advice with bindings := bindings, ascending := hascending } ∧
        bindings.Perm (advice.bindings ++ entries) := by
  induction entries generalizing advice with
  | nil =>
      cases hresult
      exact ⟨result.bindings, result.ascending, rfl, by rw [List.append_nil]⟩
  | cons entry rest ih =>
      rw [bindAll] at hresult
      by_cases hposition : entry.1 ∈ advice.positions
      · rw [bind_of_bound hposition] at hresult
        cases hresult
      · obtain ⟨_, hbind⟩ := bind_of_free hposition entry.2
        rw [hbind] at hresult
        obtain ⟨bindings, hascending, rfl, hperm⟩ := ih hresult
        exact ⟨bindings, hascending, rfl,
          hperm.trans (perm_insertBinding_append entry.1 entry.2 advice.bindings rest)⟩

theorem positions_of_bindAll (hresult : advice.bindAll entries = .ok result) :
    result.positions.Perm (advice.positions ++ entries.map Prod.fst) := by
  obtain ⟨bindings, hascending, rfl, hperm⟩ := bindAll_eq_ok hresult
  rw [positions, positions, ← List.map_append]
  exact hperm.map Prod.fst

theorem firstTaken_of_bindAll {failure : DeclarationError}
    (hfailure : advice.bindAll entries = .error failure) :
    ∃ entry, FirstTaken advice.positions entries entry ∧ failure = .positionBound entry.1 := by
  induction entries generalizing advice with
  | nil => cases hfailure
  | cons entry rest ih =>
      rw [bindAll] at hfailure
      by_cases hposition : entry.1 ∈ advice.positions
      · rw [bind_of_bound hposition] at hfailure
        cases hfailure
        refine ⟨entry, ⟨[], rest, rfl, ?_, ?_⟩, rfl⟩
        · simpa using advice.nodup_positions
        · simpa using hposition
      · obtain ⟨_, hbind⟩ := bind_of_free hposition entry.2
        rw [hbind] at hfailure
        obtain ⟨clash, ⟨before, after, rfl, hnodup, htaken⟩, rfl⟩ := ih hfailure
        -- The position just bound counts as one of the advice or as one of an earlier entry.
        have hperm : ((insertBinding entry.1 entry.2 advice.bindings).map Prod.fst ++
            before.map Prod.fst).Perm
            (advice.positions ++ (entry :: before).map Prod.fst) := by
          rw [positions, ← List.map_append, ← List.map_append]
          exact (perm_insertBinding_append entry.1 entry.2 advice.bindings before).map Prod.fst
        exact ⟨clash, ⟨entry :: before, after, rfl, hperm.nodup_iff.mp hnodup,
          hperm.mem_iff.mp htaken⟩, rfl⟩

/-- Entries are accepted exactly if no two of them, and none of them and the
advice, share a position. -/
theorem exists_bindAll_iff :
    (∃ result, advice.bindAll entries = .ok result) ↔
      (advice.positions ++ entries.map Prod.fst).Nodup := by
  constructor
  · rintro ⟨result, hresult⟩
    exact (positions_of_bindAll hresult).nodup_iff.mp result.nodup_positions
  · intro hnodup
    cases hresult : advice.bindAll entries with
    | ok result => exact ⟨result, rfl⟩
    | error failure =>
        obtain ⟨entry, hfirst, -⟩ := firstTaken_of_bindAll hresult
        exact absurd hnodup hfirst.not_nodup

theorem FirstTaken.bindAll_eq {entry : Nat × Binding}
    (hfirst : FirstTaken advice.positions entries entry) :
    advice.bindAll entries = .error (.positionBound entry.1) := by
  obtain ⟨before, after, rfl, hnodup, htaken⟩ := hfirst
  obtain ⟨next, hnext⟩ := exists_bindAll_iff.mpr hnodup
  have hbound : entry.1 ∈ next.positions := (positions_of_bindAll hnext).mem_iff.mpr htaken
  rw [bindAll_append, hnext]
  simp only [bindAll, bind_of_bound hbound]

theorem bindAll_eq_error_iff {failure : DeclarationError} :
    advice.bindAll entries = .error failure ↔
      ∃ entry, FirstTaken advice.positions entries entry ∧ failure = .positionBound entry.1 := by
  constructor
  · exact firstTaken_of_bindAll
  · rintro ⟨entry, hfirst, rfl⟩
    exact hfirst.bindAll_eq

/-- The order of accepted entries makes no difference, since the bindings are
kept in ascending order. -/
theorem bindAll_of_perm {others : List (Nat × Binding)}
    (hresult : advice.bindAll entries = .ok result) (hperm : entries.Perm others) :
    advice.bindAll others = .ok result := by
  have hnodup : (advice.positions ++ others.map Prod.fst).Nodup :=
    ((hperm.map Prod.fst).append_left advice.positions).nodup_iff.mp
      (exists_bindAll_iff.mp ⟨result, hresult⟩)
  obtain ⟨other, hother⟩ := exists_bindAll_iff.mpr hnodup
  rw [hother]
  obtain ⟨bindings, hascending, rfl, hbindings⟩ := bindAll_eq_ok hresult
  obtain ⟨bindings', hascending', rfl, hbindings'⟩ := bindAll_eq_ok hother
  have hsame : bindings' = bindings := by
    refine List.Perm.eq_of_pairwise ?_ hascending' hascending
      (hbindings'.trans ((hperm.append_left advice.bindings).symm.trans hbindings.symm))
    intro left right _ _ hleft hright
    exact absurd hleft (Nat.lt_asymm hright)
  subst hsame
  rfl

/-- Entries added at once are bound one after the other. -/
theorem after_of_bindAll (hresult : advice.bindAll entries = .ok result) :
    advice.after (entries.map fun entry => .bind entry.1 entry.2) = result := by
  induction entries generalizing advice with
  | nil =>
      cases hresult
      rfl
  | cons entry rest ih =>
      rw [bindAll] at hresult
      cases hbind : advice.bind entry.1 entry.2 with
      | error failure =>
          rw [hbind] at hresult
          cases hresult
      | ok next =>
          rw [hbind] at hresult
          have hstep : (advice.perform (.bind entry.1 entry.2)).2 = next := by
            rw [perform, attempt, hbind]
          rw [← ih hresult, ← hstep]
          rfl

end Advice

open Advice

/-- An advice is a store that is written once.  After any steps its bindings are
in ascending order, each position has the first binding offered to it, and the
pointcut is the first one offered; what was filled at some time stays.  A step
that is refused leaves the advice as it was.

Several entries at once are accepted exactly if their positions are distinct and
none is bound yet, as for a new advice; they are then bound one after the other,
in any order with the same result.  Otherwise the error names the first entry
whose position had occurred before. -/
theorem declarations_write_once (advice : Advice) (steps : List DeclarationStep)
    (entries : List (Nat × Binding)) :
    (advice.after steps).positions.Pairwise (· < ·) ∧
      advice.Receives (fun position => steps.findSome? (DeclarationStep.offer? position))
        (steps.findSome? DeclarationStep.pointcut?) (advice.after steps) ∧
      (∀ earlier later, steps = earlier ++ later →
        (∀ position binding, (advice.after earlier).binding? position = some binding →
          (advice.after steps).binding? position = some binding) ∧
        ∀ pointcut, (advice.after earlier).pointcut = some pointcut →
          (advice.after steps).pointcut = some pointcut) ∧
      (∀ earlier step later failure, steps = earlier ++ step :: later →
        (((advice.after earlier).perform step).1 = some failure ↔
          (advice.after earlier).Refuses step failure) ∧
        (((advice.after earlier).perform step).1 = some failure →
          advice.after (earlier ++ [step]) = advice.after earlier)) ∧
      ((∃ result, advice.bindAll entries = .ok result) ↔
        (advice.positions ++ entries.map Prod.fst).Nodup) ∧
      (∀ kind method signature,
        (∃ result, ({ kind, method, signature } : Advice).bindAll entries = .ok result) ↔
          (entries.map Prod.fst).Nodup) ∧
      (∀ result, advice.bindAll entries = .ok result →
        advice.after (entries.map fun entry => .bind entry.1 entry.2) = result ∧
          ∀ others, entries.Perm others → advice.bindAll others = .ok result) ∧
      ∀ failure, advice.bindAll entries = .error failure ↔
        ∃ entry, FirstTaken advice.positions entries entry ∧
          failure = .positionBound entry.1 := by
  refine ⟨(advice.after steps).ascending_positions, advice.receives_after steps, ?_, ?_,
    exists_bindAll_iff, fun _ _ _ => exists_bindAll_iff, ?_, fun _ => bindAll_eq_error_iff⟩
  · rintro earlier later rfl
    have hlater := (advice.after earlier).receives_after later
    rw [after_append]
    refine ⟨?_, ?_⟩
    · intro position binding hbound
      rw [hlater.bindings, hbound, Option.some_or]
    · intro pointcut hset
      rw [hlater.pointcut, hset, Option.some_or]
  · rintro earlier step later failure rfl
    refine ⟨perform_eq_refused_iff, fun hrefused => ?_⟩
    rw [after_append]
    exact (perform_eq_refused_iff.mp hrefused).perform_snd
  · intro result hresult
    exact ⟨after_of_bindAll hresult, fun others => bindAll_of_perm hresult⟩

end AdviceCompiler
