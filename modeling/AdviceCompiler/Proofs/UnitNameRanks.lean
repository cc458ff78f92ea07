import Mathlib.Data.List.Perm.Basic
import AdviceCompiler.Proofs.UnitNameOrder

/-!
# How methods are numbered in unit names

A group holds the indices of one method name, in order.  So an advice is numbered
by its rank among the advices of the same method name, and these never share a
unit name.  Advices of different method names may: two names can differ in their
first letter only, and one can end in the number that another is given.
-/

namespace AdviceCompiler.UnitName

/-- Groups that hold the indices of every method name, each name once. -/
structure Grouped (methods : List String) (groups : List Group) : Prop where
  names : (groups.map Prod.fst).Nodup
  complete : ∀ method ∈ methods, method ∈ groups.map Prod.fst
  indices : ∀ group ∈ groups, group.2 = methods.idxsOf group.1

variable {methods : List String} {groups : List Group} {method : String} {index : Nat}

theorem insert_of_not_mem (hnew : method ∉ groups.map Prod.fst) :
    insert method index groups = groups ++ [(method, [index])] := by
  induction groups with
  | nil => rfl
  | cons group rest ih =>
      rw [List.map_cons, List.mem_cons, not_or] at hnew
      rw [insert, if_neg (Ne.symm hnew.1), ih hnew.2, List.cons_append]

theorem insert_of_mem (hnames : (groups.map Prod.fst).Nodup)
    (hmem : method ∈ groups.map Prod.fst) :
    insert method index groups =
      groups.map fun group => if group.1 = method then (method, group.2 ++ [index]) else group := by
  induction groups with
  | nil => cases hmem
  | cons group rest ih =>
      rw [List.map_cons, List.nodup_cons] at hnames
      rw [insert, List.map_cons]
      by_cases hfirst : group.1 = method
      · -- The name occurs once, so the other groups stay as they are.
        have hrest : rest.map (fun group =>
            if group.1 = method then (method, group.2 ++ [index]) else group) = rest := by
          refine (List.map_congr_left ?_).trans (List.map_id rest)
          intro other hother
          refine if_neg ?_
          rintro rfl
          exact hnames.1 (hfirst ▸ List.mem_map_of_mem hother)
        rw [if_pos hfirst, if_pos hfirst, hrest]
      · rw [List.map_cons, List.mem_cons] at hmem
        rw [if_neg hfirst, if_neg hfirst, ih hnames.2 (hmem.resolve_left (Ne.symm hfirst))]

theorem idxsOf_concat (methods : List String) (method other : String) :
    (methods ++ [method]).idxsOf other =
      methods.idxsOf other ++ if method = other then [methods.length] else [] := by
  simp [List.idxsOf_append, List.idxsOf_cons]

theorem grouped_nil : Grouped [] [] :=
  ⟨List.nodup_nil, List.forall_mem_nil _, List.forall_mem_nil _⟩

/-- The next method joins the group of its name. -/
theorem Grouped.insert (hgrouped : Grouped methods groups) (method : String) :
    Grouped (methods ++ [method]) (insert method methods.length groups) := by
  by_cases hmem : method ∈ groups.map Prod.fst
  · rw [insert_of_mem hgrouped.names hmem]
    have hsame : (groups.map fun group =>
        if group.1 = method then (method, group.2 ++ [methods.length]) else group).map Prod.fst =
          groups.map Prod.fst := by
      rw [List.map_map]
      refine List.map_congr_left fun group _ => ?_
      by_cases hname : group.1 = method
      · simp [hname]
      · simp [hname]
    refine ⟨hsame ▸ hgrouped.names, ?_, ?_⟩
    · rw [hsame]
      intro other hother
      rcases List.mem_append.mp hother with hold | hnew
      · exact hgrouped.complete other hold
      · rwa [List.mem_singleton.mp hnew]
    · rw [List.forall_mem_map]
      intro group hgroup
      have hindices := hgrouped.indices group hgroup
      by_cases hname : group.1 = method
      · subst hname
        rw [if_pos rfl, idxsOf_concat, if_pos rfl, hindices]
      · rw [if_neg hname, idxsOf_concat, if_neg (Ne.symm hname), List.append_nil, hindices]
  · rw [insert_of_not_mem hmem]
    have hunused : methods.idxsOf method = [] := by
      rw [List.idxsOf_eq_nil_iff]
      intro other hother
      rw [beq_eq_false_iff_ne]
      rintro rfl
      exact hmem (hgrouped.complete other hother)
    refine ⟨?_, ?_, ?_⟩
    · rw [List.map_append, List.map_singleton, List.nodup_append_comm, List.singleton_append,
        List.nodup_cons]
      exact ⟨hmem, hgrouped.names⟩
    · intro other hother
      rw [List.map_append]
      rcases List.mem_append.mp hother with hold | hnew
      · exact List.mem_append_left _ (hgrouped.complete other hold)
      · exact List.mem_append_right _ hnew
    · intro group hgroup
      rcases List.mem_append.mp hgroup with hold | hnew
      · have hother : method ≠ group.1 := by
          rintro rfl
          exact hmem (List.mem_map_of_mem hold)
        rw [idxsOf_concat, if_neg hother, List.append_nil, hgrouped.indices group hold]
      · rw [List.mem_singleton.mp hnew, idxsOf_concat, if_pos rfl, hunused, List.nil_append]

theorem Grouped.foldl_insert (hgrouped : Grouped methods groups) (rest : List String) :
    Grouped (methods ++ rest) ((rest.zipIdx methods.length).foldl
      (fun groups entry => UnitName.insert entry.1 entry.2 groups) groups) := by
  induction rest generalizing methods groups with
  | nil => rwa [List.append_nil]
  | cons method rest ih =>
      have hnext := ih (hgrouped.insert method)
      rwa [List.append_assoc, List.length_append] at hnext

theorem grouped_groups (methods : List String) : Grouped methods (UnitName.groups methods) :=
  grouped_nil.foldl_insert methods

/-- What follows the owner in the name of a unit: the method name and, unless it
occurs once, its rank among those that are equal. -/
def ending (methods : List String) (method : String) (rank : Nat) : String :=
  Text.capitalize method ++ if methods.count method = 1 then "" else toString rank

/-- Ranks of one method name are told apart. -/
theorem ending_inj {left right : Nat} (hleft : left < methods.count method)
    (hright : right < methods.count method)
    (heq : ending methods method left = ending methods method right) : left = right := by
  by_cases halone : methods.count method = 1
  · omega
  · rw [ending, ending, if_neg halone, if_neg halone, String.append_right_inj] at heq
    have hdigits : Nat.toDigits 10 left = Nat.toDigits 10 right := String.ofList_injective heq
    calc
      left = Nat.ofDigitChars 10 (Nat.toDigits 10 left) 0 := Nat.ofDigitChars_ten_toDigits.symm
      _ = Nat.ofDigitChars 10 (Nat.toDigits 10 right) 0 := by rw [hdigits]
      _ = right := Nat.ofDigitChars_ten_toDigits

theorem rank_lt_count (hmethod : methods[index]? = some method) :
    (methods.take index).count method < methods.count method := by
  obtain ⟨hindex, rfl⟩ := List.getElem?_eq_some_iff.mp hmethod
  rw [← List.countBefore_eq_count_take]
  exact List.countBefore_lt_count_getElem

/-- The indices of a method name are in the order of their ranks. -/
theorem rank_of_getElem?_idxsOf {rank : Nat}
    (hindex : (methods.idxsOf method)[rank]? = some index) :
    methods[index]? = some method ∧ (methods.take index).count method = rank := by
  obtain ⟨hrank, rfl⟩ := List.getElem?_eq_some_iff.mp hindex
  constructor
  · rw [List.getElem?_eq_some_iff]
    exact ⟨List.getElem_idxsOf_lt hrank, List.getElem_getElem_idxsOf_of_lawful hrank⟩
  · rw [List.length_idxsOf] at hrank
    rw [← List.countBefore_eq_count_take, List.getElem_idxOf_eq_idxOfNth,
      List.countBefore_idxOfNth_of_lt_count hrank]

/-- Every rank below the number of occurrences is that of an occurrence. -/
theorem exists_rank_eq {rank : Nat} (hrank : rank < methods.count method) :
    ∃ index, methods[index]? = some method ∧ (methods.take index).count method = rank := by
  rw [← List.length_idxsOf] at hrank
  exact ⟨_, rank_of_getElem?_idxsOf (List.getElem?_eq_getElem hrank)⟩

/-- Two occurrences of a method name differ in rank. -/
theorem rank_inj {other : Nat} (hmethod : methods[index]? = some method)
    (hother : methods[other]? = some method)
    (hrank : (methods.take index).count method = (methods.take other).count method) :
    index = other := by
  obtain ⟨hindex, rfl⟩ := List.getElem?_eq_some_iff.mp hmethod
  obtain ⟨hplace, hsame⟩ := List.getElem?_eq_some_iff.mp hother
  rw [← List.countBefore_eq_count_take, ← List.countBefore_eq_count_take] at hrank
  calc
    index = methods.idxOfNth methods[index] (methods.countBefore methods[index] index) :=
      List.idxOfNth_countBefore_getElem.symm
    _ = methods.idxOfNth methods[index] (methods.countBefore methods[index] other) := by
      rw [hrank]
    _ = other := List.idxOfNth_countBefore_of_lt_length_of_beq (beq_iff_eq.mpr hsame)

/-- The names of a group are numbered by rank. -/
theorem mem_ofGroup {owner name : String} {group : Group}
    (hindices : group.2 = methods.idxsOf group.1) (hmem : (index, name) ∈ ofGroup owner group) :
    methods[index]? = some group.1 ∧
      name = owner ++ ending methods group.1 ((methods.take index).count group.1) := by
  obtain ⟨⟨place, rank⟩, hplace, heq⟩ := List.mem_map.mp hmem
  rw [List.mem_zipIdx_iff_getElem?, hindices] at hplace
  obtain ⟨hmethod, hrank⟩ := rank_of_getElem?_idxsOf hplace
  cases heq
  refine ⟨hmethod, ?_⟩
  rw [ending, hrank, hindices, List.length_idxsOf, String.append_assoc]

theorem mem_ofMethods {owner name : String} (hmem : (index, name) ∈ ofMethods owner methods) :
    ∃ method, methods[index]? = some method ∧
      name = owner ++ ending methods method ((methods.take index).count method) := by
  obtain ⟨group, hgroup, hname⟩ := List.mem_flatMap.mp (List.mem_mergeSort.mp hmem)
  exact ⟨group.1, mem_ofGroup ((grouped_groups methods).indices group hgroup) hname⟩

/-- Every method is numbered by its rank, and they are in order. -/
theorem ofMethods_eq (owner : String) (methods : List String) :
    ofMethods owner methods = methods.mapIdx fun index method =>
      (index, owner ++ ending methods method ((methods.take index).count method)) := by
  have hfirsts := map_fst_ofMethods owner methods
  have hlength : (ofMethods owner methods).length = methods.length := by
    rw [← List.length_map Prod.fst, hfirsts, List.length_range]
  apply List.ext_getElem
  · rw [hlength, List.length_mapIdx]
  · intro index hname _
    have hfirst : (ofMethods owner methods)[index].1 = index := by
      have hplace := congrArg (·[index]?) hfirsts
      simp only [List.getElem?_map, List.getElem?_eq_getElem hname, Option.map_some,
        List.getElem?_range (hlength ▸ hname), Option.some.injEq] at hplace
      exact hplace
    have hentry : (ofMethods owner methods)[index] =
        (index, (ofMethods owner methods)[index].2) := Prod.ext hfirst rfl
    obtain ⟨method, hmethod, hranked⟩ := mem_ofMethods (hentry ▸ List.getElem_mem hname)
    rw [List.getElem_mapIdx, hentry, hranked, (List.getElem?_eq_some_iff.mp hmethod).2]

theorem getElem?_map_snd_ofMethods (owner : String) (methods : List String) (index : Nat) :
    ((ofMethods owner methods).map Prod.snd)[index]? = methods[index]?.map fun method =>
      owner ++ ending methods method ((methods.take index).count method) := by
  rw [ofMethods_eq, List.getElem?_map, List.getElem?_mapIdx, Option.map_map]
  rfl

/-- No two different method names can end the name of a unit in the same way. -/
def Apart (methods : List String) : Prop :=
  ∀ method ∈ methods, ∀ other ∈ methods, method ≠ other →
    ∀ rank < methods.count method, ∀ otherRank < methods.count other,
      ending methods method rank ≠ ending methods other otherRank

instance (methods : List String) : Decidable (Apart methods) :=
  inferInstanceAs (Decidable (∀ method ∈ methods, ∀ other ∈ methods, method ≠ other →
    ∀ rank < methods.count method, ∀ otherRank < methods.count other,
      ending methods method rank ≠ ending methods other otherRank))

/-- Equal names that belong to one method name belong to one index. -/
theorem index_eq_of_ending_eq {other : Nat} (hmethod : methods[index]? = some method)
    (hother : methods[other]? = some method)
    (heq : ending methods method ((methods.take index).count method) =
      ending methods method ((methods.take other).count method)) : index = other :=
  rank_inj hmethod hother (ending_inj (rank_lt_count hmethod) (rank_lt_count hother) heq)

theorem nodup_map_snd_ofMethods (owner : String) (methods : List String) :
    ((ofMethods owner methods).map Prod.snd).Nodup ↔ Apart methods := by
  constructor
  · -- Every ending is that of some unit, so endings in common are names in common.
    intro hnodup method _ other _ hdiffer rank hrank otherRank hotherRank heq
    obtain ⟨index, hmethod, rfl⟩ := exists_rank_eq hrank
    obtain ⟨place, hother, rfl⟩ := exists_rank_eq hotherRank
    have hsame : ((ofMethods owner methods).map Prod.snd)[index]? =
        ((ofMethods owner methods).map Prod.snd)[place]? := by
      rw [getElem?_map_snd_ofMethods, getElem?_map_snd_ofMethods, hmethod, hother,
        Option.map_some, Option.map_some, heq]
    have hindex : index < ((ofMethods owner methods).map Prod.snd).length := by
      have hsome := getElem?_map_snd_ofMethods owner methods index
      rw [hmethod, Option.map_some] at hsome
      exact (List.getElem?_eq_some_iff.mp hsome).1
    have hplace : index = place := (List.getElem?_inj hindex hnodup).mp hsame
    rw [hplace, hother] at hmethod
    exact hdiffer (Option.some.inj hmethod).symm
  · intro hapart
    rw [List.nodup_iff_getElem?_ne_getElem?]
    intro index place hless hplace heq
    rw [List.length_map, ← List.length_map Prod.fst, map_fst_ofMethods, List.length_range] at hplace
    rw [getElem?_map_snd_ofMethods, getElem?_map_snd_ofMethods] at heq
    have hmethod := List.getElem?_eq_getElem (hless.trans hplace)
    have hother := List.getElem?_eq_getElem hplace
    rw [hmethod, hother, Option.map_some, Option.map_some, Option.some.injEq,
      String.append_right_inj] at heq
    by_cases hsame : methods[index] = methods[place]
    · rw [hsame] at hmethod heq
      exact hless.ne (index_eq_of_ending_eq hmethod hother heq)
    · exact hapart _ (List.getElem_mem _) _ (List.getElem_mem _) hsame _ (rank_lt_count hmethod)
        _ (rank_lt_count hother) heq

end AdviceCompiler.UnitName

namespace AdviceCompiler

namespace Text

/-- Of the tables, only the first run is about ASCII characters. -/
theorem uppercase_of_not_letter {c : Char} (hascii : c.toNat < 128)
    (hletter : ¬ (97 ≤ c.toNat ∧ c.toNat ≤ 122)) : uppercase c = [c] := by
  have hkeys : ∀ entry ∈ caseExpansions, 128 ≤ entry.1 := by decide +kernel
  have hstarts : ∀ run ∈ caseRuns, run = ⟨97, 122, 1, -32⟩ ∨ 128 ≤ run.first := by decide +kernel
  have hexpansion : caseExpansions.lookup c.toNat = none := by
    rw [List.lookup_eq_none_iff]
    intro entry hentry
    have hkey := hkeys entry hentry
    simp only [bne_iff_ne]
    omega
  have hrun : (caseRuns.find? fun run => run.contains c.toNat) = none := by
    rw [List.find?_eq_none]
    intro run hrun hcontains
    simp only [CaseRun.contains, Bool.and_eq_true, decide_eq_true_eq] at hcontains
    obtain rfl | hstart := hstarts run hrun
    · exact hletter hcontains.1
    · omega
  simp only [uppercase, hexpansion, hrun]

theorem uppercase_of_ascii {c : Char} (hascii : c.toNat < 128) : uppercase c = [c.toUpper] := by
  by_cases hletter : 97 ≤ c.toNat ∧ c.toNat ≤ 122
  · have hletters : ∀ offset < 26, uppercase (Char.ofNat (97 + offset)) =
        [(Char.ofNat (97 + offset)).toUpper] := by
      decide +kernel
    have hoffset := hletters (c.toNat - 97) (by omega)
    rwa [Nat.add_sub_cancel' hletter.1, Char.ofNat_toNat] at hoffset
  · have hsame : c.toUpper = c := dif_neg hletter
    rw [uppercase_of_not_letter hascii hletter, hsame]

theorem capitalize_of_ascii {name : String} {first : Char} {rest : List Char}
    (hname : name.toList = first :: rest) (hascii : first.toNat < 128) :
    capitalize name = String.ofList (first.toUpper :: rest) := by
  simp only [capitalize, hname, uppercase_of_ascii hascii, List.singleton_append]

end Text

namespace CallSite

variable {site : CallSite} {advice : Advice} {index : Nat}

/-- The number of advices of this method name. -/
def countNamed (advices : List Advice) (name : String) : Nat :=
  advices.countP fun advice => advice.method.name = name

theorem count_map_name (advices : List Advice) (name : String) :
    (advices.map fun advice => advice.method.name).count name = countNamed advices name := by
  rw [List.count_eq_countP, List.countP_map]
  rfl

/-- A method name occurs once exactly if no other advice has it. -/
theorem countNamed_eq_one_iff (hadvice : site.advices[index]? = some advice) :
    countNamed site.advices advice.method.name = 1 ↔
      ¬ ∃ other ∈ site.advices.eraseIdx index, other.method.name = advice.method.name := by
  obtain ⟨hindex, rfl⟩ := List.getElem?_eq_some_iff.mp hadvice
  have hsplit := (List.getElem_cons_eraseIdx_perm hindex).countP_eq
    fun other => decide (other.method.name = site.advices[index].method.name)
  rw [List.countP_cons_of_pos (by simp)] at hsplit
  rw [countNamed, ← hsplit, Nat.add_eq_right, List.countP_eq_zero]
  simp

theorem ending_of_advice (hadvice : site.advices[index]? = some advice) :
    UnitName.ending (site.advices.map fun advice => advice.method.name) advice.method.name
        (((site.advices.map fun advice => advice.method.name).take index).count
          advice.method.name) =
      Text.capitalize advice.method.name ++
        if ∃ other ∈ site.advices.eraseIdx index, other.method.name = advice.method.name then
          toString (countNamed (site.advices.take index) advice.method.name)
        else "" := by
  rw [UnitName.ending, ← List.map_take, count_map_name, count_map_name]
  by_cases hshared : ∃ other ∈ site.advices.eraseIdx index,
      other.method.name = advice.method.name
  · have hseveral : countNamed site.advices advice.method.name ≠ 1 := by
      rw [ne_eq, countNamed_eq_one_iff hadvice]
      exact not_not_intro hshared
    rw [if_neg hseveral, if_pos hshared]
  · rw [if_pos ((countNamed_eq_one_iff hadvice).mpr hshared), if_neg hshared]

end CallSite

/-- Every advice has a unit name, in order of declaration: the owner and the
capitalized method name, with the number of advices before it that have this method
name if any other advice has it.  So advices of one method name have different unit
names.  A name that starts with an ASCII character is capitalized in that character
alone. -/
theorem unit_names_numbered_by_rank (site : CallSite) :
    site.unitNames = site.advices.mapIdx (fun index advice =>
        (index, site.owner.text ++ (Text.capitalize advice.method.name ++
          if ∃ other ∈ site.advices.eraseIdx index, other.method.name = advice.method.name then
            toString (CallSite.countNamed (site.advices.take index) advice.method.name)
          else ""))) ∧
      (∀ (index other : Nat) (first second : Advice), site.advices[index]? = some first →
        site.advices[other]? = some second → first.method.name = second.method.name →
          index ≠ other →
            (site.unitNames.map Prod.snd)[index]? ≠ (site.unitNames.map Prod.snd)[other]?) ∧
      ∀ (name : String) (first : Char) (rest : List Char), name.toList = first :: rest →
        first.toNat < 128 → Text.capitalize name = String.ofList (first.toUpper :: rest) := by
  refine ⟨?_, ?_, fun name first rest => Text.capitalize_of_ascii⟩
  · apply List.ext_getElem?
    intro index
    rw [CallSite.unitNames, UnitName.ofMethods_eq, List.getElem?_mapIdx, List.getElem?_mapIdx,
      List.getElem?_map, Option.map_map]
    cases hadvice : site.advices[index]? with
    | none => rfl
    | some advice =>
        rw [Option.map_some, Option.map_some, ← CallSite.ending_of_advice hadvice]
        rfl
  · intro index other first second hfirst hsecond hname hdiffer heq
    have hmethod : (site.advices.map fun advice => advice.method.name)[index]? =
        some first.method.name := by
      rw [List.getElem?_map, hfirst, Option.map_some]
    have hother : (site.advices.map fun advice => advice.method.name)[other]? =
        some first.method.name := by
      rw [List.getElem?_map, hsecond, Option.map_some, hname]
    rw [CallSite.unitNames, UnitName.getElem?_map_snd_ofMethods,
      UnitName.getElem?_map_snd_ofMethods, hmethod, hother, Option.map_some, Option.map_some,
      Option.some.injEq, String.append_right_inj] at heq
    exact hdiffer (UnitName.index_eq_of_ending_eq hmethod hother heq)

namespace Sample

/-- A call site with two advices of one method name and another between them. -/
def rankedSite : CallSite :=
  let advices := ["before", "after", "before"].map fun name =>
    { kind := .before
      method := ⟨.object "foo.Advices", name, [], .void, ⟨true, true⟩⟩
      signature := "void foo.Clock.tick()" : Advice }
  { CallSite.ofOwner (.object "foo.Advices") with advices }

end Sample

theorem ranked_units_named :
    Sample.rankedSite.unitNames =
      [(0, "foo.AdvicesBefore0"), (1, "foo.AdvicesAfter"), (2, "foo.AdvicesBefore1")] := by
  rw [(unit_names_numbered_by_rank Sample.rankedSite).1]
  decide +kernel

end AdviceCompiler
