import AdviceCompiler.Proofs.CompiledUnits

/-!
# What lies beneath

An instruction looks at the slots it takes and at nothing beneath them, so a
solution also works on a deeper stack.  No instruction takes more than four
slots.  Four values that stand above a part of the stack, and nowhere in it, and
are wanted in the end therefore freeze that part: an instruction that reached
into it would need one of them to be gone.
-/

namespace AdviceCompiler

open Instruction

variable {σ : Type}

/-- A solution found is one on any deeper stack, where the search finds one that
is no longer. -/
theorem search_stable_on_deeper_stack (below current target : Layout) (maxDepth : Nat)
    (found : List Instruction) (hfound : search maxDepth current target = some found) :
    Layout.run (below ++ current) found = .ok (below ++ target) ∧
      ∃ deeper, search maxDepth (below ++ current) (below ++ target) = some deeper ∧
        deeper.length ≤ found.length := by
  obtain ⟨hproper, hbounded, hreaches⟩ := (search_eq_some_iff.mp hfound).solves
  have hrun : Layout.run (below ++ current) found = .ok (below ++ target) :=
    Layout.run_append hreaches below
  have hsolution : IsSolution maxDepth (below ++ current) (below ++ target) found :=
    ⟨hproper, hbounded, hrun⟩
  refine ⟨hrun, ?_⟩
  cases hdeeper : search maxDepth (below ++ current) (below ++ target) with
  | none => exact absurd hsolution (search_eq_none_iff.mp hdeeper found)
  | some deeper =>
      refine ⟨deeper, rfl, Nat.not_lt.mp ?_⟩
      intro hshorter
      exact (search_eq_some_iff.mp hdeeper).first found hsolution
        (List.shortlex_def.mpr (Or.inl hshorter))

/-- Beneath a value stands another copy of it.  Two instructions make two more
copies of the value alone, and one does so with the help of the copy beneath. -/
theorem copies_shorter_on_deeper_stack :
    let value := Memo.Transform.a
    search 2 [value] [value, value, value] = some [.dup, .dup] ∧
      search 2 ([value] ++ [value]) ([value] ++ [value, value, value]) = some [.dup2] ∧
      Layout.run ([value] ++ [value]) [.dup, .dup] = .ok ([value] ++ [value, value, value]) ∧
      ∃ deeper,
        search 2 ([value] ++ [value]) ([value] ++ [value, value, value]) = some deeper ∧
          deeper.length ≤ [Instruction.dup, .dup].length := by
  intro value
  have hfound : search 2 [value] [value, value, value] = some [.dup, .dup] := by
    decide +kernel
  have hdeeper : search 2 ([value] ++ [value]) ([value] ++ [value, value, value]) =
      some [.dup2] := by
    decide +kernel
  exact ⟨hfound, hdeeper, search_stable_on_deeper_stack [value] _ _ 2 _ hfound⟩

namespace Instruction

theorem length_widths_le_four {instruction : Instruction} {form : Form}
    (hform : form ∈ instruction.forms) : form.widths.length ≤ 4 := by
  have hall : ∀ form ∈ instruction.forms, form.widths.length ≤ 4 := by
    cases instruction <;> decide
  exact hall form hform

/-- A form that takes its slots from `top` alone leaves what is beneath alone. -/
theorem Form.Rewrites.of_append {form : Form} {top below result : List Slot}
    (hrewrites : form.Rewrites (top ++ below) result)
    (henough : form.widths.length ≤ top.length) :
    ∃ kept, result = kept ++ below ∧ form.Rewrites top kept := by
  obtain ⟨taken, rest, hstack, hwidths, rfl⟩ := hrewrites
  have hlength : taken.length ≤ top.length := by
    rwa [← hwidths, List.length_map] at henough
  have htaken : taken <+: top :=
    List.prefix_of_prefix_length_le ⟨rest, hstack.symm⟩ (List.prefix_append top below) hlength
  obtain ⟨between, rfl⟩ := htaken
  have hrest : between ++ below = rest := by
    rwa [List.append_assoc, List.append_cancel_left_eq] at hstack
  subst hrest
  exact ⟨form.put taken ++ between, (List.append_assoc _ _ _).symm, taken, between, rfl,
    hwidths, rfl⟩

end Instruction

namespace Layout

variable {below region target next : Layout} {instruction : Instruction}
variable {sequence : List Instruction}

/-- An instruction on top of four slots or more does not reach beneath them. -/
theorem step_of_append (hregion : 4 ≤ region.length)
    (hstep : step (below ++ region) instruction = .ok next) :
    ∃ above, next = below ++ above ∧ region.step instruction = .ok above := by
  rw [step_eq_ok_iff, List.reverse_append] at hstep
  obtain ⟨form, hform, hrewrites⟩ := rewrites_of_effectOnTop hstep
  have henough : form.widths.length ≤ region.reverse.length := by
    rw [List.length_reverse]
    exact (length_widths_le_four hform).trans hregion
  obtain ⟨kept, hnext, htop⟩ := hrewrites.of_append henough
  refine ⟨kept.reverse, ?_, ?_⟩
  · rw [List.reverse_eq_iff.mp hnext, List.reverse_append, List.reverse_reverse]
  · rw [step_eq_ok_iff, List.reverse_reverse]
    exact effectOnTop_of_rewrites hform htop

/-- The slots above `below` hold four or more values that `target` needs and that
do not stand in `below`. -/
def Covers (region below target : Layout) : Prop :=
  ∃ live : List Slot, live.Nodup ∧ 4 ≤ live.length ∧
    ∀ slot ∈ live, slot ∈ region ∧ slot ∈ target ∧ slot ∉ below

theorem Covers.four_le_length (hcovers : region.Covers below target) : 4 ≤ region.length := by
  obtain ⟨live, hdistinct, hfour, hlive⟩ := hcovers
  have hsubset : live ⊆ region := fun slot hslot => (hlive slot hslot).1
  exact hfour.trans (hdistinct.subperm hsubset).length_le

/-- A step of a run to `target` keeps the part beneath and the values above it. -/
theorem Covers.step (hcovers : region.Covers below target)
    (hstep : step (below ++ region) instruction = .ok next)
    (hrest : next.run sequence = .ok target) :
    ∃ above, next = below ++ above ∧ region.step instruction = .ok above ∧
      above.Covers below target := by
  obtain ⟨above, rfl, habove⟩ := step_of_append hcovers.four_le_length hstep
  obtain ⟨live, hdistinct, hfour, hlive⟩ := hcovers
  refine ⟨above, rfl, habove, live, hdistinct, hfour, ?_⟩
  intro slot hslot
  obtain ⟨-, htarget, hbelow⟩ := hlive slot hslot
  -- A value that the step has dropped could not be in the target.
  have hkept : slot ∈ below ++ above := mem_of_run hrest htarget
  exact ⟨(List.mem_append.mp hkept).resolve_left hbelow, htarget, hbelow⟩

/-- Beneath four values that it has to keep, a run changes nothing. -/
theorem Covers.run_eq_ok_iff (hcovers : region.Covers below target) :
    run (below ++ region) sequence = .ok target ↔
      ∃ above, target = below ++ above ∧ region.run sequence = .ok above := by
  constructor
  · intro hrun
    induction sequence generalizing region with
    | nil =>
        cases hrun
        exact ⟨region, rfl, rfl⟩
    | cons instruction rest ih =>
        obtain ⟨next, hstep, hrest⟩ := run_cons_eq_ok_iff.mp hrun
        obtain ⟨above, rfl, habove, hcovered⟩ := hcovers.step hstep hrest
        obtain ⟨final, htarget, hfinal⟩ := ih hcovered hrest
        exact ⟨final, htarget, run_cons_eq_ok_iff.mpr ⟨above, habove, hfinal⟩⟩
  · rintro ⟨above, rfl, hrun⟩
    exact run_append hrun below

/-- The target leaves `below` as it is and needs nothing that is not above it. -/
def Frozen (below region target : Layout) : Prop :=
  ∃ above, target = below ++ above ∧ ∀ slot ∈ above, slot ∈ region

theorem Covers.frozen_of_run (hcovers : region.Covers below target)
    (hrun : run (below ++ region) sequence = .ok target) : Frozen below region target := by
  obtain ⟨above, htarget, habove⟩ := hcovers.run_eq_ok_iff.mp hrun
  exact ⟨above, htarget, fun slot hslot => mem_of_run habove hslot⟩

end Layout

theorem forall₂_of_mapM_eq_ok {ε α β : Type} {partly : α → Except ε β} {values : List α}
    {results : List β} (hresults : values.mapM partly = .ok results) :
    List.Forall₂ (fun value result => partly value = .ok result) values results := by
  induction values generalizing results with
  | nil =>
      cases hresults
      exact .nil
  | cons value rest ih =>
      rw [List.mapM_cons] at hresults
      obtain ⟨first, hfirst, htail⟩ := bind_eq_ok_iff.mp hresults
      obtain ⟨others, hothers, hall⟩ := bind_eq_ok_iff.mp htail
      cases hall
      exact .cons hfirst (ih hothers)

namespace Shuffle

variable {advice : Advice} {pointcut : Method} {arguments : Layout}

/-- The name of an argument is its index plus one. -/
theorem id_of_argumentSlot {index : Nat} {slot : Slot}
    (hslot : argumentSlot pointcut index = .ok slot) : slot.id = UInt32.ofNat (index + 1) := by
  unfold argumentSlot at hslot
  split at hslot
  · cases hslot
  · split at hslot
    · cases hslot
    · cases hslot
      rfl

theorem ids_arguments {indices : List Nat}
    (harguments : indices.mapM (argumentSlot pointcut) = .ok arguments) :
    arguments.map Slot.id = indices.map fun index => UInt32.ofNat (index + 1) := by
  have hnamed := (forall₂_of_mapM_eq_ok harguments).imp fun _ _ => id_of_argumentSlot
  symm
  rw [← List.forall₂_eq_eq_eq, List.forall₂_map_left_iff, List.forall₂_map_right_iff]
  exact hnamed.imp fun _ _ => Eq.symm

section Named

variable (hwords : pointcut.params.length < 2 ^ 32)
variable (harguments : (List.range pointcut.params.length).mapM (argumentSlot pointcut) =
  .ok arguments)

include hwords harguments

/-- Below `2 ^ 32` parameters the numbers of the arguments do not wrap. -/
theorem toNat_ids_arguments :
    (arguments.map Slot.id).map UInt32.toNat =
      (List.range pointcut.params.length).map (· + 1) := by
  rw [ids_arguments harguments, List.map_map]
  apply List.map_congr_left
  intro index hindex
  have hbelow := List.mem_range.mp hindex
  exact UInt32.toNat_ofNat_of_lt (show index + 1 < 2 ^ 32 by omega)

theorem nodup_arguments : arguments.Nodup := by
  apply List.Nodup.of_map Slot.id
  apply List.Nodup.of_map UInt32.toNat
  rw [toNat_ids_arguments hwords harguments]
  exact List.nodup_range.map (add_left_injective 1)

theorem receiverSlot_not_mem_arguments : receiverSlot ∉ arguments := by
  intro hmem
  have hname : (0 : UInt32).toNat ∈ (arguments.map Slot.id).map UInt32.toNat :=
    List.mem_map_of_mem (List.mem_map_of_mem hmem)
  rw [toNat_ids_arguments hwords harguments] at hname
  obtain ⟨index, -, hzero⟩ := List.mem_map.mp hname
  exact absurd hzero (Nat.succ_ne_zero index)

end Named

theorem receiverSlot_mem_bound {isStatic : Bool} {bound : Layout}
    (hreceiver : .receiver ∈ advice.values)
    (hbound : Shuffle.bound advice pointcut isStatic = .ok bound) : receiverSlot ∈ bound := by
  obtain ⟨slots, hslots, hall⟩ := bind_eq_ok_iff.mp hbound
  cases hall
  have hoperand : .receiver ∈ advice.operands :=
    List.mem_filter.mpr ⟨hreceiver, rfl⟩
  obtain ⟨index, hindex, hget⟩ := List.mem_iff_getElem.mp hoperand
  have hplaced := forall₂_of_mapM_eq_ok hslots
  have hsame : index < slots.length := hplaced.length_eq ▸ hindex
  have hslot : boundSlot pointcut isStatic .receiver = .ok (slots.get ⟨index, hsame⟩) :=
    hget ▸ hplaced.get hindex hsame
  simp only [boundSlot] at hslot
  split at hslot
  · exact List.mem_flatten.mpr ⟨_, List.get_mem slots _, Except.ok.inj hslot ▸ List.mem_cons_self⟩
  · cases hslot

/-- A receiver that is wanted above four arguments or more would have to be fetched
from beneath them. -/
theorem not_frozen_of_receiver {shuffle : Shuffle} (hkind : advice.kind = .before)
    (hreceiver : .receiver ∈ advice.values) (hmethod : pointcut.isConstructor = false)
    (hfour : 4 ≤ pointcut.params.length) (hwords : pointcut.params.length < 2 ^ 32)
    (hshuffle : ofAdvice advice pointcut false = .ok (some shuffle)) :
    ∃ arguments, shuffle.current = [receiverSlot] ++ arguments ∧
      Layout.Covers arguments [receiverSlot] shuffle.target ∧
      ¬ Layout.Frozen [receiverSlot] arguments shuffle.target := by
  obtain ⟨operands, bound, hoperands, hbound, hcurrent, htarget⟩ := exists_of_ofAdvice hshuffle
  obtain ⟨arguments, harguments, hall⟩ := bind_eq_ok_iff.mp hoperands
  have hthis : hasReceiver pointcut false = true := by simp [hasReceiver]
  have hcreated : created pointcut = [] := by simp [created, hmethod]
  simp only [hthis, if_true] at hall
  cases hall
  rw [hcreated, List.nil_append] at hcurrent
  rw [hcreated, List.nil_append, if_pos hkind, List.append_assoc] at htarget
  have hnodup := nodup_arguments hwords harguments
  have hapart := receiverSlot_not_mem_arguments hwords harguments
  refine ⟨arguments, hcurrent, ⟨arguments, hnodup, ?_, ?_⟩, ?_⟩
  · have hlength := (forall₂_of_mapM_eq_ok harguments).length_eq
    rw [List.length_range] at hlength
    omega
  · intro slot hslot
    refine ⟨hslot, by simp [htarget, hslot], ?_⟩
    intro hbelow
    exact hapart (List.mem_singleton.mp hbelow ▸ hslot)
  · rintro ⟨above, habove, hlocal⟩
    rw [htarget, List.append_cancel_left_eq] at habove
    subst habove
    exact hapart (hlocal _ (List.mem_append_right _ (receiverSlot_mem_bound hreceiver hbound)))

end Shuffle

theorem AdviceUnit.assemble_of_unsolved {solver : Solver σ} {state : σ} {spi : JavaType}
    {helpers : List JavaType} {advice : Advice} {pointcut : Method} {name : String}
    {isStatic : Bool} {shuffle : Shuffle} (hintercepts : advice.pointcut = some pointcut)
    (hshuffle : Shuffle.ofAdvice advice pointcut isStatic = .ok (some shuffle))
    (hunsolved : (solver.solve state shuffle.current shuffle.target).1 = none) :
    (assemble solver state spi helpers advice name isStatic).1 =
      .error (.unsolvable shuffle.current shuffle.target) := by
  simp only [assemble, hintercepts, hshuffle, solve]
  cases hanswer : solver.solve state shuffle.current shuffle.target with
  | mk answer next =>
      rw [hanswer] at hunsolved
      subst hunsolved
      rfl

namespace Sample

/-- Looks at a grid and at the value that one of its cells is about to get. -/
def gridAdvice : Advice where
  kind := .before
  method := ⟨.object "foo.Advices", "before", [.object "foo.Grid", .long], .void, ⟨true, true⟩⟩
  signature := "void foo.Grid.set(int, int, int, long)"
  bindings := [(0, .receiver), (1, .argument 3)]
  pointcut := some ⟨.object "foo.Grid", "set", [.int, .int, .int, .long], .void, {}⟩
  ascending := by simp [Ascending]

/-- The arguments of the call, above the grid. -/
def gridArguments : Layout :=
  [⟨1, .narrow⟩, ⟨2, .narrow⟩, ⟨3, .narrow⟩, ⟨4, .wide⟩]

def gridOperands : Layout := [Shuffle.receiverSlot] ++ gridArguments

end Sample

/-- Beneath four values that are wanted in the end no sequence of instructions
changes or fetches anything, so no solver of a compiler finds one that does.  In
particular no unit is assembled for an advice before a method of four parameters
or more that takes the receiver: it stands beneath the arguments.  Arguments are
numbered by 32-bit words; only from `2 ^ 32` parameters on would a number come
round to that of the receiver. -/
theorem live_values_freeze_stack_below (solver : Solver σ) (state : σ)
    (havailable : solver.Available state) :
    (∀ below region target : Layout, region.Covers below target →
      (∀ sequence, Layout.run (below ++ region) sequence = .ok target →
        Layout.Frozen below region target) ∧
      (∀ found, (solver.solve state (below ++ region) target).1 = some found →
        Layout.Frozen below region target) ∧
      (¬ Layout.Frozen below region target →
        (solver.solve state (below ++ region) target).1 = none)) ∧
    (∀ (spi : JavaType) (helpers : List JavaType) (advice : Advice) (pointcut : Method)
        (name : String) (shuffle : Shuffle),
      advice.pointcut = some pointcut → advice.kind = .before →
      .receiver ∈ advice.values → pointcut.isConstructor = false →
      4 ≤ pointcut.params.length → pointcut.params.length < 2 ^ 32 →
      Shuffle.ofAdvice advice pointcut false = .ok (some shuffle) →
      (AdviceUnit.assemble solver state spi helpers advice name false).1 =
        .error (.unsolvable shuffle.current shuffle.target)) := by
  obtain ⟨Good, hgood, hsound⟩ := havailable.exists_soundOn
  have hfrozen : ∀ below region target : Layout, region.Covers below target →
      ∀ found, (solver.solve state (below ++ region) target).1 = some found →
        Layout.Frozen below region target := by
    intro below region target hcovers found hfound
    exact hcovers.frozen_of_run (hsound.sound state hgood _ _ found hfound)
  have hnone : ∀ below region target : Layout, region.Covers below target →
      ¬ Layout.Frozen below region target →
        (solver.solve state (below ++ region) target).1 = none := by
    intro below region target hcovers hfetched
    rw [Option.eq_none_iff_forall_ne_some]
    intro found hfound
    exact hfetched (hfrozen below region target hcovers found hfound)
  refine ⟨?_, ?_⟩
  · intro below region target hcovers
    exact ⟨fun sequence hrun => hcovers.frozen_of_run hrun,
      hfrozen below region target hcovers, hnone below region target hcovers⟩
  · intro spi helpers advice pointcut name shuffle hintercepts hkind hreceiver hmethod hfour
      hwords hshuffle
    obtain ⟨arguments, hcurrent, hcovers, hfetched⟩ :=
      Shuffle.not_frozen_of_receiver hkind hreceiver hmethod hfour hwords hshuffle
    apply AdviceUnit.assemble_of_unsolved hintercepts hshuffle
    rw [hcurrent]
    exact hnone _ _ _ hcovers hfetched

/-- The last argument can be doubled in place, but the grid cannot be fetched from
beneath the four arguments. -/
theorem grid_receiver_out_of_reach :
    let solver := (Solver.search defaultMaxDepth).memoized
    let state := (Memo.initial true, ())
    let doubled := Sample.gridOperands ++ [⟨4, .wide⟩]
    Sample.gridArguments.Covers [Shuffle.receiverSlot] doubled ∧
      (solver.solve state Sample.gridOperands doubled).1 = some [.dup2] ∧
      Layout.Frozen [Shuffle.receiverSlot] Sample.gridArguments doubled ∧
      (AdviceUnit.assemble solver state (.object CallSite.defaultSpi) [] Sample.gridAdvice
          "foo.AdvicesBefore" false).1 =
        .error (.unsolvable Sample.gridOperands
          (Sample.gridOperands ++ [Shuffle.receiverSlot, ⟨4, .wide⟩])) := by
  intro solver state doubled
  obtain ⟨hlayouts, hadvices⟩ :=
    live_values_freeze_stack_below solver state (.memoized {} [])
  have hcovers : Sample.gridArguments.Covers [Shuffle.receiverSlot] doubled :=
    ⟨Sample.gridArguments, by decide, by decide, by decide⟩
  have hfound : (solver.solve state Sample.gridOperands doubled).1 = some [.dup2] := by
    decide +kernel
  exact ⟨hcovers, hfound, (hlayouts _ _ _ hcovers).2.1 _ hfound,
    hadvices _ _ Sample.gridAdvice _ _ ⟨_, _⟩ rfl rfl (by decide) (by decide) (by decide)
      (by decide) (by decide)⟩

end AdviceCompiler
