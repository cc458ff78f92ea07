import AdviceCompiler.Pointcut.Matching

/-!
# What grammar expressions read

An expression takes as much as it can and never gives it back, so what it reads
depends on the text that follows.  A set of phrases says which texts there are and
what may follow each.  An expression reads a set of phrases if it matches wherever
a phrase stands before a text that may follow it, and nowhere else.  Each way to
combine expressions combines their phrases.
-/

namespace AdviceCompiler.Pointcut

@[simp]
theorem byteLength_nil : byteLength [] = 0 := rfl

@[simp]
theorem byteLength_append (first second : List Char) :
    byteLength (first ++ second) = byteLength first + byteLength second := by
  induction first with
  | nil => simp
  | cons c rest ih => simp only [List.cons_append, byteLength, ih, Nat.add_assoc]

theorem byteLength_eq_utf8ByteSize (text : List Char) :
    byteLength text = (String.ofList text).utf8ByteSize := by
  induction text with
  | nil => simp
  | cons c rest ih =>
      rw [byteLength, ih, String.ofList_cons, String.utf8ByteSize_append,
        String.utf8ByteSize_singleton]

/-- The text starts with no character of the class. -/
def StopsAt (accepts : Char → Bool) (text : List Char) : Prop :=
  text.head?.any accepts = false

@[simp]
theorem stopsAt_nil (accepts : Char → Bool) : StopsAt accepts [] := rfl

@[simp]
theorem stopsAt_cons {accepts : Char → Bool} {c : Char} {rest : List Char} :
    StopsAt accepts (c :: rest) ↔ accepts c = false := by
  simp [StopsAt]

theorem takeWhile_append_of_stopsAt {accepts : Char → Bool} {text rest : List Char}
    (htext : ∀ c ∈ text, accepts c = true) (hrest : StopsAt accepts rest) :
    (text ++ rest).takeWhile accepts = text := by
  rw [List.takeWhile_append_of_pos htext]
  cases rest with
  | nil => simp
  | cons c others => simp [stopsAt_cons.mp hrest]

/-- A text is split in one way only at the end of a run of characters. -/
theorem append_inj_of_stopsAt {accepts : Char → Bool} {first second rest others : List Char}
    (heq : first ++ rest = second ++ others) (hfirst : ∀ c ∈ first, accepts c = true)
    (hsecond : ∀ c ∈ second, accepts c = true) (hrest : StopsAt accepts rest)
    (hothers : StopsAt accepts others) : first = second ∧ rest = others := by
  have htake := congrArg (List.takeWhile accepts) heq
  rw [takeWhile_append_of_stopsAt hfirst hrest, takeWhile_append_of_stopsAt hsecond hothers]
    at htake
  rw [htake] at heq
  exact ⟨htake, List.append_cancel_left heq⟩

structure Phrases (Phrase : Type) where
  text : Phrase → List Char
  /-- The trees of a phrase that starts at an offset. -/
  trees : Phrase → Nat → List SyntaxTree
  /-- Whether the phrase can stand before a text. -/
  EndsBefore : Phrase → List Char → Prop

namespace Phrases

variable {Phrase Other : Type}

/-- Some phrase stands at the start of the text. -/
def Starts (phrases : Phrases Phrase) (input : List Char) : Prop :=
  ∃ phrase rest, phrases.EndsBefore phrase rest ∧ input = phrases.text phrase ++ rest

/-- A fixed text. -/
@[simp]
def word (characters : List Char) : Phrases Unit where
  text _ := characters
  trees _ _ := []
  EndsBefore _ _ := True

/-- Nothing, before a text of a certain kind. -/
@[simp]
def nothing (Before : List Char → Prop) : Phrases Unit where
  text _ := []
  trees _ _ := []
  EndsBefore _ rest := Before rest

/-- A character of a class. -/
def character (accepts : Char → Bool) : Phrases { c : Char // accepts c = true } where
  text c := [c.val]
  trees _ _ := []
  EndsBefore _ _ := True

/-- One phrase and then another. -/
@[simp]
def append (first : Phrases Phrase) (second : Phrases Other) : Phrases (Phrase × Other) where
  text both := first.text both.1 ++ second.text both.2
  trees both offset := first.trees both.1 offset ++
    second.trees both.2 (offset + byteLength (first.text both.1))
  EndsBefore both rest :=
    first.EndsBefore both.1 (second.text both.2 ++ rest) ∧ second.EndsBefore both.2 rest

/-- A phrase of the first set, or one of the second where no phrase of the first
stands. -/
def orElse (first : Phrases Phrase) (second : Phrases Other) : Phrases (Phrase ⊕ Other) where
  text := Sum.elim first.text second.text
  trees := Sum.elim first.trees second.trees
  EndsBefore either rest :=
    match either with
    | .inl phrase => first.EndsBefore phrase rest
    | .inr other => second.EndsBefore other rest ∧ ¬ first.Starts (second.text other ++ rest)

/-- A phrase, or nothing where none stands. -/
@[simp]
def optional (phrases : Phrases Phrase) : Phrases (Option Phrase) where
  text
    | some phrase => phrases.text phrase
    | none => []
  trees
    | some phrase => phrases.trees phrase
    | none => fun _ => []
  EndsBefore
    | some phrase => phrases.EndsBefore phrase
    | none => fun rest => ¬ phrases.Starts rest

/-- The trees of phrases that follow each other from an offset on. -/
def treesOfMany (phrases : Phrases Phrase) : List Phrase → Nat → List SyntaxTree
  | [], _ => []
  | phrase :: others, offset => phrases.trees phrase offset ++
      phrases.treesOfMany others (offset + byteLength (phrases.text phrase))

/-- Each of the phrases can stand before the next, and no phrase follows the
last. -/
def ManyEndBefore (phrases : Phrases Phrase) : List Phrase → List Char → Prop
  | [], rest => ¬ phrases.Starts rest
  | phrase :: others, rest =>
      phrases.EndsBefore phrase (others.flatMap phrases.text ++ rest) ∧
        phrases.ManyEndBefore others rest

/-- As many phrases as follow each other. -/
@[simp]
def many (phrases : Phrases Phrase) : Phrases (List Phrase) where
  text all := all.flatMap phrases.text
  trees := phrases.treesOfMany
  EndsBefore := phrases.ManyEndBefore

/-- The phrases with their trees under a rule. -/
@[simp]
def enclosed (phrases : Phrases Phrase) (rule : Rule) : Phrases Phrase where
  text := phrases.text
  trees phrase offset :=
    [.node rule ⟨offset, offset + byteLength (phrases.text phrase)⟩ (phrases.text phrase)
      (phrases.trees phrase offset)]
  EndsBefore := phrases.EndsBefore

theorem not_starts_character_iff {accepts : Char → Bool} {input : List Char} :
    ¬ (character accepts).Starts input ↔ StopsAt accepts input := by
  constructor
  · intro hstarts
    cases input with
    | nil => exact stopsAt_nil accepts
    | cons c rest =>
        rw [stopsAt_cons]
        apply eq_false_of_ne_true
        intro haccepts
        exact hstarts ⟨⟨c, haccepts⟩, rest, trivial, rfl⟩
  · rintro hstops ⟨c, rest, -, rfl⟩
    simp [character, c.property] at hstops

/-- As many characters of a class as follow each other. -/
def run (accepts : Char → Bool) :
    Phrases { text : List Char // ∀ c ∈ text, accepts c = true } where
  text := Subtype.val
  trees _ _ := []
  EndsBefore _ rest := StopsAt accepts rest

section Many

variable {phrases : Phrases Phrase} {all : List Phrase} {rest : List Char}

theorem treesOfMany_eq_nil (hnone : ∀ phrase offset, phrases.trees phrase offset = [])
    (all : List Phrase) (offset : Nat) : phrases.treesOfMany all offset = [] := by
  induction all generalizing offset with
  | nil => rfl
  | cons phrase others ih => rw [treesOfMany, hnone, ih, List.append_nil]

theorem not_starts_of_manyEndBefore (hends : phrases.ManyEndBefore all rest) :
    ¬ phrases.Starts rest := by
  induction all with
  | nil => exact hends
  | cons phrase others ih => exact ih hends.2

/-- What can stand before the text of any phrase can stand before many. -/
theorem before_flatMap_text {Before : List Char → Prop}
    (htext : ∀ phrase rest, Before rest → Before (phrases.text phrase ++ rest))
    (hbefore : Before rest) (all : List Phrase) :
    Before (all.flatMap phrases.text ++ rest) := by
  induction all with
  | nil => exact hbefore
  | cons phrase others ih =>
      rw [List.flatMap_cons, List.append_assoc]
      exact htext phrase _ ih

/-- Phrases that only ask a property of what follows them, which their own texts
have, can stand in a row. -/
theorem manyEndBefore_of_before (Before : List Char → Prop)
    (hends : ∀ phrase rest, Before rest → phrases.EndsBefore phrase rest)
    (htext : ∀ phrase rest, Before rest → Before (phrases.text phrase ++ rest))
    (hbefore : Before rest) (hstarts : ¬ phrases.Starts rest) (all : List Phrase) :
    phrases.ManyEndBefore all rest := by
  induction all with
  | nil => exact hstarts
  | cons phrase others ih =>
      exact ⟨hends phrase _ (before_flatMap_text htext hbefore others), ih⟩

/-- A property of what follows each phrase holds of what follows the last. -/
theorem before_of_manyEndBefore (Before : List Char → Prop)
    (hends : ∀ phrase rest, phrases.EndsBefore phrase rest → Before rest)
    (hbefore : Before (all.flatMap phrases.text ++ rest))
    (hmany : phrases.ManyEndBefore all rest) : Before rest := by
  induction all with
  | nil => exact hbefore
  | cons phrase others ih => exact ih (hends phrase _ hmany.1) hmany.2

end Many

end Phrases

namespace Expression

variable {Phrase Other : Type}

/-- The expression reads the phrases. -/
structure Reads (expression : Expression) (hidden : Bool) (phrases : Phrases Phrase) :
    Prop where
  matches_phrase : ∀ {phrase rest}, phrases.EndsBefore phrase rest → ∀ offset,
    expression.matchAt hidden offset (phrases.text phrase ++ rest) =
      some ⟨phrases.text phrase, rest, phrases.trees phrase offset⟩
  starts : ∀ {offset input found}, expression.matchAt hidden offset input = some found →
    phrases.Starts input

namespace Reads

-- Each rule on phrases below opens one equation of the matcher.
attribute [local simp] matchAt

variable {expression other : Expression} {hidden : Bool}
variable {phrases : Phrases Phrase} {others : Phrases Other}

/-- What an expression has matched is a phrase. -/
theorem exists_phrase (hreads : expression.Reads hidden phrases) {offset : Nat}
    {input : List Char} {found : Match}
    (hmatch : expression.matchAt hidden offset input = some found) :
    ∃ phrase, phrases.EndsBefore phrase found.rest ∧ input = phrases.text phrase ++ found.rest ∧
      found.taken = phrases.text phrase ∧ found.trees = phrases.trees phrase offset := by
  obtain ⟨phrase, rest, hends, rfl⟩ := hreads.starts hmatch
  rw [hreads.matches_phrase hends] at hmatch
  cases hmatch
  exact ⟨phrase, hends, rfl, rfl, rfl⟩

/-- Where no phrase stands, nothing is matched. -/
theorem eq_none (hreads : expression.Reads hidden phrases) {input : List Char}
    (hstarts : ¬ phrases.Starts input) (offset : Nat) :
    expression.matchAt hidden offset input = none := by
  cases hmatch : expression.matchAt hidden offset input with
  | none => rfl
  | some found => exact absurd (hreads.starts hmatch) hstarts

/-- Phrases can be replaced by others of the same texts and trees. -/
theorem of_phrases (hreads : expression.Reads hidden phrases)
    (hof : ∀ phrase rest, others.EndsBefore phrase rest → ∃ original,
      phrases.EndsBefore original rest ∧ phrases.text original = others.text phrase ∧
        ∀ offset, phrases.trees original offset = others.trees phrase offset)
    (hto : ∀ original rest, phrases.EndsBefore original rest →
      others.Starts (phrases.text original ++ rest)) :
    expression.Reads hidden others where
  matches_phrase := by
    intro phrase rest hends offset
    obtain ⟨original, horiginal, htext, htrees⟩ := hof phrase rest hends
    rw [← htext, ← htrees]
    exact hreads.matches_phrase horiginal offset
  starts := by
    intro offset input found hmatch
    obtain ⟨original, rest, hends, rfl⟩ := hreads.starts hmatch
    exact hto original rest hends

theorem literal (characters : List Char) :
    (Expression.literal characters).Reads hidden (Phrases.word characters) where
  matches_phrase := by
    intro _ rest _ offset
    simp
  starts := by
    intro offset input found hmatch
    simp only [matchAt] at hmatch
    split at hmatch
    · next hprefix =>
        obtain ⟨rest, rfl⟩ := List.isPrefixOf_iff_prefix.mp hprefix
        exact ⟨(), rest, trivial, rfl⟩
    · cases hmatch

theorem character (accepts : Char → Bool) :
    (Expression.character accepts).Reads hidden (Phrases.character accepts) where
  matches_phrase := by
    intro c rest _ offset
    simp [Phrases.character, c.property]
  starts := by
    intro offset input found hmatch
    cases input with
    | nil => cases hmatch
    | cons c rest =>
        simp only [matchAt] at hmatch
        split at hmatch
        · next haccepts => exact ⟨⟨c, haccepts⟩, rest, trivial, rfl⟩
        · cases hmatch

theorem followedBy (accepts : Char → Bool) :
    (Expression.followedBy accepts).Reads hidden
      (Phrases.nothing fun rest => rest.head?.any accepts = true) where
  matches_phrase := by
    intro _ rest hnext offset
    simp only [Phrases.nothing] at hnext
    simp [hnext, Match.nothing]
  starts := by
    intro offset input found hmatch
    simp only [matchAt] at hmatch
    split at hmatch
    · next hnext => exact ⟨(), input, hnext, rfl⟩
    · cases hmatch

theorem notFollowedBy (accepts : Char → Bool) :
    (Expression.notFollowedBy accepts).Reads hidden (Phrases.nothing (StopsAt accepts)) where
  matches_phrase := by
    intro _ rest hnext offset
    simp only [Phrases.nothing, StopsAt] at hnext
    simp [hnext, Match.nothing]
  starts := by
    intro offset input found hmatch
    simp only [matchAt] at hmatch
    split at hmatch
    · cases hmatch
    · next hnext => exact ⟨(), input, eq_false_of_ne_true hnext, rfl⟩

theorem finished : Expression.finished.Reads hidden (Phrases.nothing (· = [])) where
  matches_phrase := by
    intro _ rest hnone offset
    simp only [Phrases.nothing] at hnone
    simp [hnone, Match.nothing]
  starts := by
    intro offset input found hmatch
    cases input with
    | nil => exact ⟨(), [], rfl, rfl⟩
    | cons c rest => cases hmatch

theorem sequence (hfirst : expression.Reads hidden phrases) (hsecond : other.Reads hidden others) :
    (Expression.sequence expression other).Reads hidden (phrases.append others) where
  matches_phrase := by
    intro both rest hends offset
    simp only [matchAt, Phrases.append, List.append_assoc, hfirst.matches_phrase hends.1,
      hsecond.matches_phrase hends.2, Option.map_some, Match.append]
  starts := by
    intro offset input found hmatch
    simp only [matchAt] at hmatch
    split at hmatch
    · cases hmatch
    · next before hbefore =>
        obtain ⟨after, hafter, -⟩ := Option.map_eq_some_iff.mp hmatch
        obtain ⟨phrase, hends, rfl, -⟩ := hfirst.exists_phrase hbefore
        obtain ⟨next, hnext, hrest, -⟩ := hsecond.exists_phrase hafter
        rw [hrest] at hends ⊢
        exact ⟨(phrase, next), after.rest, ⟨hends, hnext⟩, (List.append_assoc _ _ _).symm⟩

theorem choice (hfirst : expression.Reads hidden phrases) (hsecond : other.Reads hidden others) :
    (Expression.choice expression other).Reads hidden (phrases.orElse others) where
  matches_phrase := by
    rintro (phrase | next) rest hends offset
    · simp only [matchAt, Phrases.orElse, Sum.elim_inl, hfirst.matches_phrase hends]
    · have hnone := hfirst.eq_none hends.2 offset
      simp only [matchAt, Phrases.orElse, Sum.elim_inr, hnone, hsecond.matches_phrase hends.1]
  starts := by
    intro offset input found hmatch
    by_cases hstarts : phrases.Starts input
    · obtain ⟨phrase, rest, hends, rfl⟩ := hstarts
      exact ⟨.inl phrase, rest, hends, rfl⟩
    · simp only [matchAt, hfirst.eq_none hstarts offset] at hmatch
      obtain ⟨next, hends, rfl, -⟩ := hsecond.exists_phrase hmatch
      exact ⟨.inr next, found.rest, ⟨hends, hstarts⟩, rfl⟩

theorem optional (hreads : expression.Reads hidden phrases) :
    (Expression.optional expression).Reads hidden phrases.optional where
  matches_phrase := by
    rintro (_ | phrase) rest hends offset
    · have hnone := hreads.eq_none hends offset
      simp [hnone, Match.nothing]
    · have hends : phrases.EndsBefore phrase rest := hends
      simp [hreads.matches_phrase hends]
  starts := by
    intro offset input found _
    by_cases hstarts : phrases.Starts input
    · obtain ⟨phrase, rest, hends, rfl⟩ := hstarts
      exact ⟨some phrase, rest, hends, rfl⟩
    · exact ⟨none, input, hstarts, rfl⟩

/-- Repetition takes phrases as long as one follows. -/
theorem matchRepeatedly_phrases (hreads : expression.Reads hidden phrases)
    (htext : ∀ phrase, phrases.text phrase ≠ []) {all : List Phrase} {rest : List Char}
    (hends : phrases.ManyEndBefore all rest) (offset : Nat) :
    matchRepeatedly (expression.matchAt hidden) offset (all.flatMap phrases.text ++ rest) =
      ⟨all.flatMap phrases.text, rest, phrases.treesOfMany all offset⟩ := by
  induction all generalizing offset with
  | nil =>
      have hnone := hreads.eq_none hends offset
      rw [matchRepeatedly]
      simp [hnone, Match.nothing, Phrases.treesOfMany]
  | cons phrase next ih =>
      have hpositive := List.length_pos_iff.mpr (htext phrase)
      rw [matchRepeatedly, List.flatMap_cons, List.append_assoc,
        hreads.matches_phrase hends.1]
      simp only [ih hends.2, List.length_append, Nat.lt_add_left_iff_pos, hpositive, dif_pos,
        Match.append, Phrases.treesOfMany]

/-- Every text starts with phrases up to where none follows. -/
theorem starts_many (htext : ∀ phrase, phrases.text phrase ≠ []) (input : List Char) :
    phrases.many.Starts input := by
  induction hlength : input.length using Nat.strongRecOn generalizing input with
  | ind length ih =>
      by_cases hstarts : phrases.Starts input
      · obtain ⟨phrase, rest, hends, rfl⟩ := hstarts
        have hpositive := List.length_pos_iff.mpr (htext phrase)
        rw [List.length_append] at hlength
        -- the phrase takes text, so less is left
        obtain ⟨next, after, hnext, rfl⟩ := ih rest.length (by omega) rest rfl
        exact ⟨phrase :: next, after, ⟨hends, hnext⟩, (List.append_assoc _ _ _).symm⟩
      · exact ⟨[], input, hstarts, rfl⟩

theorem many (hreads : expression.Reads hidden phrases)
    (htext : ∀ phrase, phrases.text phrase ≠ []) :
    (Expression.many expression).Reads hidden phrases.many where
  matches_phrase := by
    intro all rest hends offset
    exact congrArg some (hreads.matchRepeatedly_phrases htext hends offset)
  starts := by
    intro offset input found _
    exact starts_many htext input

theorem run (accepts : Char → Bool) :
    (Expression.many (Expression.character accepts)).Reads hidden (Phrases.run accepts) := by
  have hcharacters : (Expression.many (Expression.character accepts)).Reads hidden
      (Phrases.character accepts).many :=
    (character accepts).many fun _ => List.cons_ne_nil _ _
  have htext (all : List { c : Char // accepts c = true }) :
      (Phrases.character accepts).many.text all = all.map Subtype.val :=
    List.map_eq_flatMap.symm
  apply hcharacters.of_phrases
  · rintro ⟨text, haccepts⟩ rest hstops
    have hmany : (text.pmap Subtype.mk haccepts).map Subtype.val = text := by
      rw [List.map_pmap, List.pmap_eq_map, List.map_id']
    refine ⟨text.pmap Subtype.mk haccepts, ?_, (htext _).trans hmany, fun offset => ?_⟩
    · exact Phrases.manyEndBefore_of_before (fun _ => True) (fun _ _ _ => trivial)
        (fun _ _ _ => trivial) trivial (Phrases.not_starts_character_iff.mpr hstops) _
    · exact Phrases.treesOfMany_eq_nil (fun _ _ => rfl) _ offset
  · intro all rest hends
    rw [htext]
    have haccepts : ∀ c ∈ all.map Subtype.val, accepts c = true := by
      intro c hc
      obtain ⟨original, -, rfl⟩ := List.mem_map.mp hc
      exact original.property
    refine ⟨⟨all.map Subtype.val, haccepts⟩, rest, ?_, rfl⟩
    exact Phrases.not_starts_character_iff.mp (Phrases.not_starts_of_manyEndBefore hends)

theorem starts_of_labelled {rule : Rule} {scope : Scope}
    (hreads : expression.Reads (scope.hides hidden) phrases) {offset : Nat} {input : List Char}
    {found : Match}
    (hmatch : (Expression.labelled rule scope expression).matchAt hidden offset input =
      some found) : phrases.Starts input := by
  simp only [matchAt] at hmatch
  split at hmatch
  · cases hmatch
  · next inner hinner => exact hreads.starts hinner

/-- A rule inside a token leaves no trace. -/
theorem labelled_hidden {rule : Rule} {scope : Scope}
    (hreads : expression.Reads (scope.hides true) phrases) :
    (Expression.labelled rule scope expression).Reads true phrases where
  matches_phrase := by
    intro phrase rest hends offset
    simp only [matchAt, hreads.matches_phrase hends, if_true]
  starts := starts_of_labelled hreads

theorem labelled {rule : Rule} {scope : Scope}
    (hreads : expression.Reads (scope.hides false) phrases) :
    (Expression.labelled rule scope expression).Reads false (phrases.enclosed rule) where
  matches_phrase := by
    intro phrase rest hends offset
    have hmatch := hreads.matches_phrase hends offset
    simp [hmatch, Match.enclose]
  starts := starts_of_labelled hreads

end Reads

end Expression

end AdviceCompiler.Pointcut
