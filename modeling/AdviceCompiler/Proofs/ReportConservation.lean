import AdviceCompiler.Proofs.Reports

/-!
# Reports made of reports

A report is filled by adding diagnostics and by taking over other reports, which have
been filled in the same way under limits of their own.  No diagnostic is lost on the
way: each is kept or counted.  With different limits the kept ones need not be the
first, since a small limit inside can leave out what the report around it would keep.
-/

namespace AdviceCompiler

namespace Report

/-- What a report says of the diagnostics that went into it: it keeps some in their
order, counts the others and stays within its limit. -/
structure Accounts (report : Report) (added : List Diagnostic) : Prop where
  kept : report.diagnostics.Sublist added
  counted : report.diagnostics.length + report.omitted = added.length
  bounded : report.limit ≠ 0 → report.diagnostics.length ≤ report.limit

variable {report other : Report} {added others : List Diagnostic}

@[simp]
theorem limit_add (report : Report) (diagnostic : Diagnostic) :
    (report.add diagnostic).limit = report.limit := by
  rw [add]
  split <;> rfl

@[simp]
theorem limit_addAll (report : Report) (diagnostics : List Diagnostic) :
    (report.addAll diagnostics).limit = report.limit := by
  induction diagnostics generalizing report with
  | nil => rfl
  | cons diagnostic rest ih =>
      exact (ih (report.add diagnostic)).trans (report.limit_add diagnostic)

theorem limit_merge (report other : Report) : (report.merge other).limit = report.limit := by
  rw [merge, limit_addAll]

theorem accounts_limited (limit : Nat) : (limited limit).Accounts [] :=
  ⟨List.Sublist.refl [], rfl, fun _ => Nat.zero_le limit⟩

/-- One more diagnostic is kept if there is room, and counted otherwise. -/
theorem Accounts.add (haccounts : report.Accounts added) (diagnostic : Diagnostic) :
    (report.add diagnostic).Accounts (added ++ [diagnostic]) := by
  have hcounted := haccounts.counted
  by_cases hfull : report.limit ≠ 0 ∧ report.limit ≤ report.diagnostics.length
  · have hadd : report.add diagnostic = { report with omitted := report.omitted + 1 } := by
      simp [Report.add, isFull, hfull]
    rw [hadd]
    refine ⟨haccounts.kept.trans (List.sublist_append_left added [diagnostic]), ?_,
      haccounts.bounded⟩
    rw [List.length_append, List.length_singleton, ← hcounted, Nat.add_assoc]
  · have hadd : report.add diagnostic =
        { report with diagnostics := report.diagnostics ++ [diagnostic] } := by
      simp [Report.add, isFull, hfull]
    rw [hadd]
    refine ⟨haccounts.kept.append_right [diagnostic], ?_, ?_⟩
    · simp only [List.length_append, List.length_singleton]
      omega
    · intro hlimit
      simp only [List.length_append, List.length_singleton]
      simp only [ne_eq, hlimit, not_false_eq_true, true_and] at hfull
      omega

theorem Accounts.addAll (haccounts : report.Accounts added) (diagnostics : List Diagnostic) :
    (report.addAll diagnostics).Accounts (added ++ diagnostics) := by
  induction diagnostics generalizing report added with
  | nil => rwa [List.append_nil]
  | cons diagnostic rest ih =>
      have hrest := ih (haccounts.add diagnostic)
      rwa [List.append_assoc] at hrest

/-- What the other report has left out stays counted, and what it has kept is added. -/
theorem Accounts.merge (haccounts : report.Accounts added) (hothers : other.Accounts others) :
    (report.merge other).Accounts (added ++ others) := by
  have hkept := haccounts.addAll other.diagnostics
  have hcounted := hkept.counted
  rw [Report.merge, addAll_of_omitted]
  refine ⟨hkept.kept.trans (hothers.kept.append_left added), ?_, hkept.bounded⟩
  calc
    (report.addAll other.diagnostics).diagnostics.length +
          ((report.addAll other.diagnostics).omitted + other.omitted) =
        added.length + (other.diagnostics.length + other.omitted) := by
      rw [List.length_append] at hcounted
      omega
    _ = (added ++ others).length := by rw [hothers.counted, List.length_append]

theorem Accounts.isClean_iff (haccounts : report.Accounts added) :
    report.isClean = true ↔ added = [] := by
  have hcounted := haccounts.counted
  rw [isClean, Bool.and_eq_true, List.isEmpty_iff, beq_iff_eq, ← List.length_eq_zero_iff,
    ← List.length_eq_zero_iff]
  omega

end Report

/-- How a report comes about.  It starts empty under a limit; then diagnostics and
whole reports are added to it, one after the other. -/
inductive ReportTree where
  | empty (limit : Nat)
  | add (before : ReportTree) (diagnostic : Diagnostic)
  | merge (before other : ReportTree)

namespace ReportTree

def report : ReportTree → Report
  | .empty limit => .limited limit
  | .add before diagnostic => before.report.add diagnostic
  | .merge before other => before.report.merge other.report

/-- The diagnostics added anywhere in the tree, depth first. -/
def added : ReportTree → List Diagnostic
  | .empty _ => []
  | .add before diagnostic => before.added ++ [diagnostic]
  | .merge before other => before.added ++ other.added

/-- The limit of the report itself. -/
def limit : ReportTree → Nat
  | .empty limit => limit
  | .add before _ => before.limit
  | .merge before _ => before.limit

/-- The limits of the report and of all reports inside it. -/
def limits : ReportTree → List Nat
  | .empty limit => [limit]
  | .add before _ => before.limits
  | .merge before other => before.limits ++ other.limits

theorem limit_report (tree : ReportTree) : tree.report.limit = tree.limit := by
  induction tree with
  | empty limit => rfl
  | add before diagnostic ih => rw [report, Report.limit_add, ih, limit]
  | merge before other ih _ => rw [report, Report.limit_merge, ih, limit]

theorem accounts_report (tree : ReportTree) : tree.report.Accounts tree.added := by
  induction tree with
  | empty limit => exact Report.accounts_limited limit
  | add before diagnostic ih => exact ih.add diagnostic
  | merge before other ih ihOther => exact ih.merge ihOther

/-- Under one limit for all, it makes no difference which report a diagnostic was
added to. -/
theorem report_of_limits {limit : Nat} (tree : ReportTree)
    (hlimits : ∀ other ∈ tree.limits, other = limit) :
    tree.report = Report.ofList limit tree.added := by
  induction tree with
  | empty own =>
      rw [hlimits own (List.mem_singleton_self own)]
      rfl
  | add before diagnostic ih =>
      rw [report, ih hlimits, added, Report.ofList_append]
      rfl
  | merge before other ih ihOther =>
      simp only [limits, List.mem_append] at hlimits
      rw [report, ih fun own hown => hlimits own (.inl hown),
        ihOther fun own hown => hlimits own (.inr hown), Report.merge_ofList, added]

end ReportTree

/-- However a report is made, under whatever limits, the diagnostics it keeps are
among those added, in order, and with those it leaves out they are as many as were
added.  It keeps no more than its limit, and is clean exactly if nothing was added
anywhere.  If all limits are the same, it keeps the first diagnostics. -/
theorem reports_conserve_diagnostics (tree : ReportTree) :
    tree.report.diagnostics.Sublist tree.added ∧
      tree.report.diagnostics.length + tree.report.omitted = tree.added.length ∧
      (tree.limit ≠ 0 → tree.report.diagnostics.length ≤ tree.limit) ∧
      (tree.report.isClean = true ↔ tree.added = []) ∧
      ∀ limit, limit ≠ 0 → (∀ other ∈ tree.limits, other = limit) →
        tree.report.diagnostics = tree.added.take limit := by
  have haccounts := tree.accounts_report
  refine ⟨haccounts.kept, haccounts.counted, ?_, haccounts.isClean_iff, ?_⟩
  · rw [← tree.limit_report]
    exact haccounts.bounded
  · intro limit hlimit hlimits
    rw [tree.report_of_limits hlimits, Report.ofList_of_limit hlimit]

-- A limit inside leaves out what the report around it has room for.
example (first second third : Diagnostic) :
    (ReportTree.add (.merge (.empty 3) (.add (.add (.empty 1) first) second)) third).report =
      ⟨3, [first, third], 1⟩ := rfl

end AdviceCompiler
