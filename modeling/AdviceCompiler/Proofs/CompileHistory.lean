import Mathlib.Logic.Function.Basic
import AdviceCompiler.Proofs.AdviceOutcomes

/-!
# Compilation has no memory

Two things outlast a call of the compiler: what its solver was asked, and the
pointcuts that were read, which stay in the call sites.  Neither shows in a later
answer.  The solver answers as if it were new, and an advice whose pointcut has
been read has the outcome that it had before.
-/

namespace AdviceCompiler

variable {σ : Type}

namespace Compiler

variable {compiler : Compiler σ} {site : CallSite} {fresh state : σ}

/-- A pointcut is read once.  A signature that is refused is refused again, for
the same reason. -/
theorem readPointcut_readPointcut (advice : Advice) :
    compiler.readPointcut (compiler.readPointcut advice).1 = compiler.readPointcut advice := by
  cases hpointcut : advice.pointcut with
  | some pointcut => simp [readPointcut, hpointcut]
  | none =>
      cases hread : compiler.read advice.signature <;> simp [readPointcut, hpointcut, hread]

theorem method_readPointcut (advice : Advice) :
    (compiler.readPointcut advice).1.method = advice.method := by
  rw [readPointcut]
  split
  · rfl
  · split <;> rfl

/-- The call site with all signatures read. -/
def readAll (compiler : Compiler σ) (site : CallSite) : CallSite :=
  site.withAdvices (site.advices.map fun advice => (compiler.readPointcut advice).1)

theorem methodNames_readAll : (compiler.readAll site).methodNames = site.methodNames := by
  simp [readAll, CallSite.methodNames, CallSite.withAdvices, method_readPointcut]

theorem verifyHeader_readAll :
    (compiler.readAll site).verifyHeader compiler.resolver compiler.options.verifier =
      site.verifyHeader compiler.resolver compiler.options.verifier :=
  CallSite.verifyHeader_withAdvices methodNames_readAll _ _

theorem outcome_readPointcut (header : CallSite) (advice : Advice) (index : Nat)
    (name : String) :
    compiler.outcome fresh header (compiler.readPointcut advice).1 index name =
      compiler.outcome fresh header advice index name := by
  rw [outcome, outcome, readPointcut_readPointcut]

theorem outcomes_readAll :
    compiler.outcomes fresh (compiler.readAll site) = compiler.outcomes fresh site := by
  have hnames : (compiler.readAll site).unitNames = site.unitNames :=
    CallSite.unitNames_withAdvices methodNames_readAll
  rw [outcomes, outcomes, hnames, outcomesOf, outcomesOf]
  simp only [readAll, CallSite.withAdvices, List.zip_map_left, List.map_map]
  apply List.map_congr_left
  intro entry _
  exact outcome_readPointcut site.header entry.1 entry.2.1 entry.2.2

/-- What a call leaves of the call site it compiles. -/
def leaves (compiler : Compiler σ) (site : CallSite) : CallSite :=
  if (site.verifyHeader compiler.resolver compiler.options.verifier).isClean then
    compiler.readAll site
  else site

theorem advices_compileAdvices (entries : List (Advice × Nat × String)) (compiled : Compiled)
    (state : σ) :
    (compiler.compileAdvices site entries compiled state).2.1 =
      entries.map fun entry => (compiler.readPointcut entry.1).1 := by
  induction entries generalizing compiled state with
  | nil => rfl
  | cons entry rest ih => exact congrArg _ (ih _ _)

theorem site_compile : (compiler.compile site state).2.1 = compiler.leaves site := by
  have hlength : site.advices.length ≤ site.unitNames.length := site.length_unitNames.ge
  rw [compile, leaves]
  split
  · calc
      site.withAdvices (compiler.compileAdvices site (site.advices.zip site.unitNames)
          (compiler.opened site) state).2.1 =
          site.withAdvices ((site.advices.zip site.unitNames).map fun entry =>
            (compiler.readPointcut entry.1).1) := by rw [advices_compileAdvices]
      _ = site.withAdvices (((site.advices.zip site.unitNames).map Prod.fst).map fun advice =>
            (compiler.readPointcut advice).1) := by rw [List.map_map]; rfl
      _ = compiler.readAll site := by rw [List.map_fst_zip hlength, readAll]
  · rfl

theorem reaches_compileAdvices (entries : List (Advice × Nat × String)) (compiled : Compiled)
    (hreaches : compiler.solver.Reaches fresh state) :
    compiler.solver.Reaches fresh
      (compiler.compileAdvices site entries compiled state).2.2 := by
  induction entries generalizing compiled state with
  | nil => exact hreaches
  | cons entry rest ih => exact ih _ (compileSubject_keeps keeps_reaches hreaches)

theorem reaches_compile (hreaches : compiler.solver.Reaches fresh state) :
    compiler.solver.Reaches fresh (compiler.compile site state).2.2 := by
  rw [compile]
  split
  · exact reaches_compileAdvices _ _ hreaches
  · exact hreaches

/-- Two call sites that a compiler does not tell apart. -/
structure Alike (compiler : Compiler σ) (fresh : σ) (left right : CallSite) : Prop where
  opened : compiler.opened left = compiler.opened right
  outcomes : compiler.outcomes fresh left = compiler.outcomes fresh right

theorem Alike.trans {left middle right : CallSite} (hleft : compiler.Alike fresh left middle)
    (hright : compiler.Alike fresh middle right) : compiler.Alike fresh left right :=
  ⟨hleft.opened.trans hright.opened, hleft.outcomes.trans hright.outcomes⟩

theorem alike_leaves : compiler.Alike fresh (compiler.leaves site) site := by
  rw [leaves]
  split
  · refine ⟨?_, outcomes_readAll⟩
    rw [opened, verifyHeader_readAll]
    rfl
  · exact ⟨rfl, rfl⟩

/-- The answer to a call does not show the state that the solver is in. -/
theorem Alike.compile_eq {left right : CallSite} (halike : compiler.Alike fresh left right)
    (hsteady : compiler.solver.Steady fresh) (hreaches : compiler.solver.Reaches fresh state) :
    (compiler.compile left state).1 = (compiler.compile right fresh).1 := by
  have hreport : left.verifyHeader compiler.resolver compiler.options.verifier =
      right.verifyHeader compiler.resolver compiler.options.verifier :=
    congrArg Compiled.report halike.opened
  cases hheader :
      (right.verifyHeader compiler.resolver compiler.options.verifier).isClean with
  | false =>
      rw [compile_of_header_unclean hheader, compile_of_header_unclean (hreport ▸ hheader)]
      exact halike.opened
  | true =>
      rw [compile_eq_foldl hsteady .start hheader,
        compile_eq_foldl hsteady hreaches (hreport ▸ hheader), halike.opened, halike.outcomes]

variable {ι : Type} {built sites : ι → CallSite}

/-- What call sites, which were `built` once, and the solver can be after some
calls. -/
structure Follows (compiler : Compiler σ) (fresh : σ) (built sites : ι → CallSite) (state : σ) :
    Prop where
  alike : ∀ object, compiler.Alike fresh (sites object) (built object)
  reaches : compiler.solver.Reaches fresh state

theorem follows_start (compiler : Compiler σ) (fresh : σ) (built : ι → CallSite) :
    compiler.Follows fresh built built fresh :=
  ⟨fun _ => ⟨rfl, rfl⟩, .start⟩

/-- A pass over the call sites answers each as if it were the only one. -/
theorem Follows.compileAll (hsteady : compiler.solver.Steady fresh)
    (hfollows : compiler.Follows fresh built sites state) (order : List ι) :
    (compiler.compileAll (order.map sites) state).1 =
        order.map (fun object => (compiler.compile (built object) fresh).1) ∧
      (compiler.compileAll (order.map sites) state).2.1 =
        order.map (fun object => compiler.leaves (sites object)) ∧
      compiler.solver.Reaches fresh (compiler.compileAll (order.map sites) state).2.2 := by
  induction order generalizing state with
  | nil => exact ⟨rfl, rfl, hfollows.reaches⟩
  | cons object rest ih =>
      have hanswer := (hfollows.alike object).compile_eq hsteady hfollows.reaches
      obtain ⟨hothers, hsites, hreaches⟩ :=
        ih ⟨hfollows.alike, reaches_compile hfollows.reaches⟩
      exact ⟨congrArg₂ List.cons hanswer hothers, congrArg₂ List.cons site_compile hsites,
        hreaches⟩

theorem Follows.compileRounds (hsteady : compiler.solver.Steady fresh)
    (hfollows : compiler.Follows fresh built sites state) (order : List ι) (rounds : Nat) :
    (compiler.compileRounds rounds (order.map sites) state).1 =
      List.replicate rounds
        (order.map fun object => (compiler.compile (built object) fresh).1) := by
  induction rounds generalizing sites state with
  | zero => rfl
  | succ rounds ih =>
      obtain ⟨hround, hsites, hreaches⟩ := hfollows.compileAll hsteady order
      have hnext : compiler.Follows fresh built (fun object => compiler.leaves (sites object))
          (compiler.compileAll (order.map sites) state).2.2 :=
        ⟨fun object => alike_leaves.trans (hfollows.alike object), hreaches⟩
      rw [List.replicate_succ, ← ih hnext, ← hround, ← hsites]
      rfl

variable [DecidableEq ι]

/-- Compiles call sites in the order of the calls.  A call site is an object: the
pointcuts that a call has read in it are there when it is compiled again. -/
def compileCalls (compiler : Compiler σ) :
    List ι → (ι → CallSite) → σ → List Compiled × (ι → CallSite) × σ
  | [], sites, state => ([], sites, state)
  | object :: rest, sites, state =>
      let (compiled, site, state) := compiler.compile (sites object) state
      let (others, sites, state) :=
        compiler.compileCalls rest (Function.update sites object site) state
      (compiled :: others, sites, state)

theorem Follows.compile (hfollows : compiler.Follows fresh built sites state) (object : ι) :
    compiler.Follows fresh built
      (Function.update sites object (compiler.compile (sites object) state).2.1)
      (compiler.compile (sites object) state).2.2 := by
  -- Only the object of the call changes, into a call site like it.
  refine ⟨?_, reaches_compile hfollows.reaches⟩
  intro other
  by_cases hother : other = object
  · subst hother
    rw [Function.update_self, site_compile]
    exact alike_leaves.trans (hfollows.alike other)
  · rw [Function.update_of_ne hother]
    exact hfollows.alike other

theorem Follows.compileCalls (hfollows : compiler.Follows fresh built sites state)
    (calls : List ι) :
    compiler.Follows fresh built (compiler.compileCalls calls sites state).2.1
      (compiler.compileCalls calls sites state).2.2 := by
  induction calls generalizing sites state with
  | nil => exact hfollows
  | cons object rest ih => exact ih (hfollows.compile object)

theorem Follows.answers (hsteady : compiler.solver.Steady fresh)
    (hfollows : compiler.Follows fresh built sites state) (calls : List ι) :
    (compiler.compileCalls calls sites state).1 =
      calls.map fun object => (compiler.compile (built object) fresh).1 := by
  induction calls generalizing sites state with
  | nil => rfl
  | cons object rest ih =>
      have hanswer := (hfollows.alike object).compile_eq hsteady hfollows.reaches
      exact congrArg₂ List.cons hanswer (ih (hfollows.compile object))

end Compiler

/-- Every call of a compiler, whatever was compiled before and however often,
answers as a new compiler does on the call site as it was built.  So call sites
compiled together have the same answers in every order, and every round repeats
the first. -/
theorem compilation_history_free {ι : Type} [DecidableEq ι] (compiler : Compiler σ) (fresh : σ)
    (hbuilt : compiler.solver.Built fresh) (built : ι → CallSite) (calls : List ι) :
    (compiler.compileCalls calls built fresh).1 =
        calls.map (fun object => (compiler.compile (built object) fresh).1) ∧
      ∀ order : List ι,
        (compiler.compileAll (order.map (compiler.compileCalls calls built fresh).2.1)
            (compiler.compileCalls calls built fresh).2.2).1 =
          order.map (fun object => (compiler.compile (built object) fresh).1) ∧
        ∀ rounds,
          (compiler.compileRounds rounds
              (order.map (compiler.compileCalls calls built fresh).2.1)
              (compiler.compileCalls calls built fresh).2.2).1 =
            List.replicate rounds
              (order.map fun object => (compiler.compile (built object) fresh).1) := by
  have hstart := compiler.follows_start fresh built
  have hlater := hstart.compileCalls calls
  refine ⟨hstart.answers hbuilt.steady calls, ?_⟩
  intro order
  obtain ⟨hpass, -, -⟩ := hlater.compileAll hbuilt.steady order
  exact ⟨hpass, hlater.compileRounds hbuilt.steady order⟩

namespace Sample

/-- The compiler of advices on clocks, with its default options. -/
def clockCompiler : Compiler (Memo × Unit) :=
  ⟨Pointcut.readReporting false, clockPath.resolver, (Solver.search defaultMaxDepth).memoized, {}⟩

/-- Sees by how much a clock is moved.  Its signature has yet to be read. -/
def unreadAdvice : Advice :=
  { copyAdvice with
    method := ⟨.object "foo.Advices", "before", [.long], .void, ⟨true, true⟩⟩
    signature := "int foo.Clock.advance(long)"
    pointcut := none }

/-- Two call sites of one owner, of which the second cannot be compiled. -/
def objects : Bool → CallSite
  | true => siteOf unreadAdvice
  | false => siteOf brokenAdvice

end Sample

/-- The first call site has its unit before and after the other is refused: once
its instructions are searched for, once they are known. -/
theorem repeated_call_answers_again :
    (Sample.clockCompiler.compileCalls [true, false, true] Sample.objects Sample.start).1.map
        (fun compiled => compiled.units.map AdviceUnit.instructions) =
      [[[.dup2]], [], [[.dup2]]] := by
  have hbuilt : Sample.clockCompiler.solver.Built Sample.start := .memoized (.stateless _) true
  rw [(compilation_history_free Sample.clockCompiler Sample.start hbuilt Sample.objects
    [true, false, true]).1]
  decide +kernel

end AdviceCompiler
