import AdviceCompiler.Advice
import AdviceCompiler.Assembly.Shuffle
import AdviceCompiler.Assembly.Unit
import AdviceCompiler.CallSite
import AdviceCompiler.ClassPath
import AdviceCompiler.Compiler
import AdviceCompiler.Diagnostic
import AdviceCompiler.JavaType
import AdviceCompiler.Method
import AdviceCompiler.Pointcut.Expectation
import AdviceCompiler.Pointcut.Grammar
import AdviceCompiler.Pointcut.Matching
import AdviceCompiler.Pointcut.Reading
import AdviceCompiler.Pointcut.Signature
import AdviceCompiler.Pointcut.Snippet
import AdviceCompiler.Report
import AdviceCompiler.Resolution
import AdviceCompiler.Stack.Canonical
import AdviceCompiler.Stack.Instruction
import AdviceCompiler.Stack.Layout
import AdviceCompiler.Stack.Memo
import AdviceCompiler.Stack.Odometer
import AdviceCompiler.Stack.Search
import AdviceCompiler.Stack.Solver
import AdviceCompiler.Text.Uppercase
import AdviceCompiler.UnitName
import AdviceCompiler.Verification.Advice
import AdviceCompiler.Verification.Bindings
import AdviceCompiler.Verification.CallSite
import AdviceCompiler.Verification.Compatibility
import AdviceCompiler.Verification.KindRules
import AdviceCompiler.Verification.Options
import AdviceCompiler.Verification.Subject
import AdviceCompiler.Proofs.Enumeration
import AdviceCompiler.Proofs.ShortlexSearch
import AdviceCompiler.Proofs.CanonicalPair
import AdviceCompiler.Proofs.MemoTransparency
import AdviceCompiler.Proofs.SolverHistory
import AdviceCompiler.Proofs.Reports
import AdviceCompiler.Proofs.BindingShape
import AdviceCompiler.Proofs.ValidAdvice
import AdviceCompiler.Proofs.AcceptedAdvice
import AdviceCompiler.Proofs.StackMachine
import AdviceCompiler.Proofs.UnitCorrectness
import AdviceCompiler.Proofs.AroundCoverage
import AdviceCompiler.Proofs.CompiledUnits
import AdviceCompiler.Proofs.ConstructorResult
import AdviceCompiler.Proofs.StackWords
import AdviceCompiler.Proofs.Phrases
import AdviceCompiler.Proofs.SignatureParts
import AdviceCompiler.Proofs.SignatureLanguage
import AdviceCompiler.Proofs.WrittenSignature
import AdviceCompiler.Proofs.SignatureRoundTrip
import AdviceCompiler.Proofs.AssemblyFailures
import AdviceCompiler.Proofs.UnitNameOrder
import AdviceCompiler.Proofs.AdviceOutcomes
import AdviceCompiler.Proofs.CompileHistory
import AdviceCompiler.Proofs.Truncation
import AdviceCompiler.Proofs.AdviceFindings
import AdviceCompiler.Proofs.DriverAgreement
import AdviceCompiler.Proofs.UnitNameRanks
import AdviceCompiler.Proofs.Ancestry
import AdviceCompiler.Proofs.UnitLookup
import AdviceCompiler.Proofs.Subtyping
import AdviceCompiler.Proofs.LayoutRenaming
import AdviceCompiler.Proofs.MemoBooks
import AdviceCompiler.Proofs.LowerStack
import AdviceCompiler.Proofs.SupertypeSearch
import AdviceCompiler.Proofs.NearestDeclaration
import AdviceCompiler.Proofs.BindingPositions
import AdviceCompiler.Proofs.VerificationLevels
import AdviceCompiler.Proofs.ReportConservation
import AdviceCompiler.Proofs.Descriptors
import AdviceCompiler.Proofs.SignatureFaults
import AdviceCompiler.Proofs.AdviceDeclaration
import AdviceCompiler.Proofs.BlockSuccessor
