import AdviceCompiler.Report

/-!
# What reports hold

A report is clean exactly if nothing was ever added to it, and one that is not
clean holds a diagnostic, whatever its limit.  Without a limit, what is added
stays in order and nothing is left out.  With a limit, the first diagnostics are
kept and the others counted, also where they come from reports that have been cut
at the same limit before.
-/

namespace AdviceCompiler.Report

variable {report other : Report} {limit : Nat}

@[simp]
theorem isClean_add (report : Report) (diagnostic : Diagnostic) :
    (report.add diagnostic).isClean = false := by
  rw [add]
  split <;> simp [isClean]

@[simp]
theorem isClean_addAll (report : Report) (diagnostics : List Diagnostic) :
    (report.addAll diagnostics).isClean = (report.isClean && diagnostics.isEmpty) := by
  induction diagnostics generalizing report with
  | nil => simp [addAll]
  | cons diagnostic rest ih =>
      calc
        (report.addAll (diagnostic :: rest)).isClean =
            ((report.add diagnostic).addAll rest).isClean := rfl
        _ = (report.isClean && (diagnostic :: rest).isEmpty) := by simp [ih]

theorem isClean_ofList {diagnostics : List Diagnostic} :
    (ofList limit diagnostics).isClean = true ↔ diagnostics = [] := by
  rw [ofList, isClean_addAll]
  simp [limited, isClean]

theorem isClean_merge (report other : Report) :
    (report.merge other).isClean = (report.isClean && other.isClean) := by
  rw [merge, isClean_addAll]
  simp only [isClean]
  grind

theorem diagnostics_of_isClean (hclean : report.isClean = true) :
    report.diagnostics = [] := by
  rw [isClean, Bool.and_eq_true] at hclean
  exact List.isEmpty_iff.mp hclean.1

/-- A report without a limit, which leaves nothing out. -/
structure Unlimited (report : Report) : Prop where
  limit : report.limit = 0
  omitted : report.omitted = 0

theorem Unlimited.add_eq (hunlimited : report.Unlimited) (diagnostic : Diagnostic) :
    report.add diagnostic =
      { report with diagnostics := report.diagnostics ++ [diagnostic] } := by
  simp [add, isFull, hunlimited.limit]

theorem Unlimited.add (hunlimited : report.Unlimited) (diagnostic : Diagnostic) :
    (report.add diagnostic).Unlimited := by
  rw [hunlimited.add_eq]
  exact ⟨hunlimited.limit, hunlimited.omitted⟩

theorem Unlimited.addAll_eq (hunlimited : report.Unlimited) (diagnostics : List Diagnostic) :
    report.addAll diagnostics =
      { report with diagnostics := report.diagnostics ++ diagnostics } := by
  induction diagnostics generalizing report with
  | nil => simp [addAll]
  | cons diagnostic rest ih =>
      calc
        report.addAll (diagnostic :: rest) = (report.add diagnostic).addAll rest := rfl
        _ = { report with diagnostics := report.diagnostics ++ diagnostic :: rest } := by
          rw [ih (hunlimited.add diagnostic), hunlimited.add_eq]
          simp

theorem Unlimited.merge_eq (hreport : report.Unlimited) (hother : other.Unlimited) :
    report.merge other =
      { report with diagnostics := report.diagnostics ++ other.diagnostics } := by
  rw [merge, hother.omitted]
  exact hreport.addAll_eq other.diagnostics

theorem ofList_zero (diagnostics : List Diagnostic) :
    ofList 0 diagnostics = ⟨0, diagnostics, 0⟩ := by
  have hempty : (limited 0).Unlimited := ⟨rfl, rfl⟩
  rw [ofList, hempty.addAll_eq]
  rfl

theorem unlimited_ofList (diagnostics : List Diagnostic) : (ofList 0 diagnostics).Unlimited := by
  rw [ofList_zero]
  exact ⟨rfl, rfl⟩

/-- A report that is full was not empty. -/
theorem diagnostics_add_ne_nil (report : Report) (diagnostic : Diagnostic) :
    (report.add diagnostic).diagnostics ≠ [] := by
  rw [add]
  split
  · next hfull =>
      intro (hnone : report.diagnostics = [])
      simp [isFull, hnone] at hfull
  · simp

theorem diagnostics_addAll_ne_nil (hreport : report.diagnostics ≠ [])
    (diagnostics : List Diagnostic) : (report.addAll diagnostics).diagnostics ≠ [] := by
  induction diagnostics generalizing report with
  | nil => exact hreport
  | cons diagnostic rest ih => exact ih (diagnostics_add_ne_nil report diagnostic)

theorem diagnostics_ofList_ne_nil {diagnostics : List Diagnostic}
    (hdiagnostics : diagnostics ≠ []) : (ofList limit diagnostics).diagnostics ≠ [] := by
  cases diagnostics with
  | nil => exact absurd rfl hdiagnostics
  | cons diagnostic rest =>
      exact diagnostics_addAll_ne_nil (diagnostics_add_ne_nil (limited limit) diagnostic) rest

theorem ofList_append (limit : Nat) (diagnostics others : List Diagnostic) :
    ofList limit (diagnostics ++ others) = (ofList limit diagnostics).addAll others :=
  List.foldl_append

/-- A report that keeps the first diagnostics and counts the others still does so
with one more. -/
theorem add_of_limit (hlimit : limit ≠ 0) (diagnostics : List Diagnostic)
    (diagnostic : Diagnostic) :
    add ⟨limit, diagnostics.take limit, diagnostics.length - limit⟩ diagnostic =
      ⟨limit, (diagnostics ++ [diagnostic]).take limit,
        (diagnostics ++ [diagnostic]).length - limit⟩ := by
  by_cases hfull : limit ≤ diagnostics.length
  · have hcount : diagnostics.length - limit + 1 = diagnostics.length + 1 - limit := by omega
    simp [add, isFull, hlimit, hfull, hcount, List.take_append_of_le_length]
  · have hcount : diagnostics.length + 1 - limit = diagnostics.length - limit := by omega
    have hfits : diagnostics.take limit = diagnostics := List.take_of_length_le (by omega)
    have hstill : (diagnostics ++ [diagnostic]).take limit = diagnostics ++ [diagnostic] :=
      List.take_of_length_le (by simp; omega)
    simp [add, isFull, hfull, hcount, hfits, hstill]

theorem addAll_of_limit (hlimit : limit ≠ 0) (diagnostics others : List Diagnostic) :
    addAll ⟨limit, diagnostics.take limit, diagnostics.length - limit⟩ others =
      ⟨limit, (diagnostics ++ others).take limit, (diagnostics ++ others).length - limit⟩ := by
  induction others generalizing diagnostics with
  | nil => simp [addAll]
  | cons diagnostic rest ih =>
      calc
        addAll ⟨limit, diagnostics.take limit, diagnostics.length - limit⟩ (diagnostic :: rest) =
            (add ⟨limit, diagnostics.take limit, diagnostics.length - limit⟩
              diagnostic).addAll rest := rfl
        _ = _ := by rw [add_of_limit hlimit, ih, List.append_assoc, List.singleton_append]

theorem ofList_of_limit (hlimit : limit ≠ 0) (diagnostics : List Diagnostic) :
    ofList limit diagnostics = ⟨limit, diagnostics.take limit, diagnostics.length - limit⟩ := by
  simpa [ofList, limited] using addAll_of_limit hlimit [] diagnostics

/-- What was left out before has no part in what is added. -/
theorem addAll_of_omitted (report : Report) (count : Nat) (diagnostics : List Diagnostic) :
    { report with omitted := report.omitted + count }.addAll diagnostics =
      { report.addAll diagnostics with
        omitted := (report.addAll diagnostics).omitted + count } := by
  induction diagnostics generalizing report with
  | nil => rfl
  | cons diagnostic rest ih =>
      have hadd : { report with omitted := report.omitted + count }.add diagnostic =
          { report.add diagnostic with omitted := (report.add diagnostic).omitted + count } := by
        by_cases hfull : report.limit ≠ 0 ∧ report.limit ≤ report.diagnostics.length
        · simp [add, isFull, hfull, Nat.add_right_comm]
        · simp [add, isFull, hfull]
      calc
        { report with omitted := report.omitted + count }.addAll (diagnostic :: rest) =
            ({ report with omitted := report.omitted + count }.add diagnostic).addAll rest := rfl
        _ = _ := by
          rw [hadd, ih]
          rfl

/-- What a report of the same limit has left out would not have been kept here. -/
theorem merge_ofList (limit : Nat) (diagnostics others : List Diagnostic) :
    (ofList limit diagnostics).merge (ofList limit others) =
      ofList limit (diagnostics ++ others) := by
  by_cases hlimit : limit = 0
  · subst hlimit
    rw [(unlimited_ofList diagnostics).merge_eq (unlimited_ofList others)]
    simp only [ofList_zero]
  · have hkept : (diagnostics ++ others.take limit).take limit =
        (diagnostics ++ others).take limit := by
      rw [List.take_append, List.take_append, List.take_take]
      congr 2
      omega
    rw [merge, addAll_of_omitted, ofList_of_limit hlimit others, ← ofList_append,
      ofList_of_limit hlimit, ofList_of_limit hlimit, hkept]
    simp only [mk.injEq, true_and, List.length_append, List.length_take]
    omega

theorem foldl_merge_ofList (limit : Nat) (diagnostics : List Diagnostic)
    (others : List (List Diagnostic)) :
    (others.map (ofList limit)).foldl merge (ofList limit diagnostics) =
      ofList limit (diagnostics ++ others.flatten) := by
  induction others generalizing diagnostics with
  | nil => simp
  | cons first rest ih =>
      rw [List.map_cons, List.foldl_cons, merge_ofList, ih, List.flatten_cons, List.append_assoc]

end AdviceCompiler.Report
