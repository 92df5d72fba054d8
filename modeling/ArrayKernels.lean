import ArrayKernels.Core.Binding
import ArrayKernels.Core.CoreUfunc
import ArrayKernels.Core.Run
import ArrayKernels.Decimal.Scientific
import ArrayKernels.Decimal.Shortest
import ArrayKernels.Device.Emission
import ArrayKernels.Device.Info
import ArrayKernels.Device.Printer
import ArrayKernels.Device.Syntax
import ArrayKernels.Elementwise.Column
import ArrayKernels.Elementwise.Schedule
import ArrayKernels.Elementwise.Ufunc
import ArrayKernels.Error
import ArrayKernels.Expr
import ArrayKernels.Expr.Meaning
import ArrayKernels.Function
import ArrayKernels.Json.Skip
import ArrayKernels.Json.Token
import ArrayKernels.Json.Writer
import ArrayKernels.Kernel.Closure
import ArrayKernels.Kernel.Compile
import ArrayKernels.Kernel.Env
import ArrayKernels.Kernel.Lowering
import ArrayKernels.Kernel.Program
import ArrayKernels.Kernel.StackCode
import ArrayKernels.Kernel.TreeWalk
import ArrayKernels.Log.Event
import ArrayKernels.Log.Filter
import ArrayKernels.Log.Setup
import ArrayKernels.NdArray
import ArrayKernels.Operator
import ArrayKernels.Proofs.Acceptance
import ArrayKernels.Proofs.Binding
import ArrayKernels.Proofs.BindingFaults
import ArrayKernels.Proofs.Blocks
import ArrayKernels.Proofs.ConstructorCounts
import ArrayKernels.Proofs.CoreCalls
import ArrayKernels.Proofs.CoreMeaning
import ArrayKernels.Proofs.CoreRun
import ArrayKernels.Proofs.Decimal.Digits
import ArrayKernels.Proofs.Decimal.ReadBack
import ArrayKernels.Proofs.ElementwiseCalls
import ArrayKernels.Proofs.ExactSizes
import ArrayKernels.Proofs.FirstFault
import ArrayKernels.Proofs.Json.Grammar
import ArrayKernels.Proofs.Json.Reading
import ArrayKernels.Proofs.LoweredPrograms
import ArrayKernels.Proofs.LoweringFaults
import ArrayKernels.Proofs.OpenCL.CacheKeys
import ArrayKernels.Proofs.OpenCL.CoreKernels
import ArrayKernels.Proofs.OpenCL.Execution
import ArrayKernels.Proofs.OpenCL.Grammar
import ArrayKernels.Proofs.OpenCL.KernelSteps
import ArrayKernels.Proofs.OpenCL.PrintedKernels
import ArrayKernels.Proofs.OpenCL.PrintedNumbers
import ArrayKernels.Proofs.OpenCL.PrintedTerms
import ArrayKernels.Proofs.OpenCL.Reader
import ArrayKernels.Proofs.OpenCL.Scopes
import ArrayKernels.Proofs.OpenCL.Statements
import ArrayKernels.Proofs.OpenCL.TermMeaning
import ArrayKernels.Proofs.OpenCL.Tokens
import ArrayKernels.Proofs.OpenCL.Written
import ArrayKernels.Proofs.OpenCL.WrittenScopes
import ArrayKernels.Proofs.OpenCL.WrittenValues
import ArrayKernels.Proofs.OutputPlaces
import ArrayKernels.Proofs.OutputSize
import ArrayKernels.Proofs.Parts
import ArrayKernels.Proofs.ReadSafety
import ArrayKernels.Proofs.Recording
import ArrayKernels.Proofs.RegistryHistory
import ArrayKernels.Proofs.RegistryTables
import ArrayKernels.Proofs.Renaming
import ArrayKernels.Proofs.RowMajor
import ArrayKernels.Proofs.ScalarCores
import ArrayKernels.Proofs.ScalarFaults
import ArrayKernels.Proofs.Schedules
import ArrayKernels.Proofs.Scoping
import ArrayKernels.Proofs.SessionRuns
import ArrayKernels.Proofs.SessionTrace
import ArrayKernels.Proofs.SettingsText
import ArrayKernels.Proofs.SignatureGrammar
import ArrayKernels.Proofs.SignatureReading
import ArrayKernels.Proofs.SignatureSpelling
import ArrayKernels.Proofs.StackDiscipline
import ArrayKernels.Proofs.StaleIndices
import ArrayKernels.Proofs.StandardRegistry
import ArrayKernels.Proofs.StrategyAgreement
import ArrayKernels.Proofs.Tiling
import ArrayKernels.Proofs.Traversal
import ArrayKernels.Proofs.WatchedStack
import ArrayKernels.Proofs.Windows
import ArrayKernels.Registry.Builder
import ArrayKernels.Registry.Constructor
import ArrayKernels.Registry.Description
import ArrayKernels.Registry.Key
import ArrayKernels.Registry.Request
import ArrayKernels.Registry.Table
import ArrayKernels.Session
import ArrayKernels.Settings
import ArrayKernels.Settings.Environment
import ArrayKernels.Settings.Reader
import ArrayKernels.Shape
import ArrayKernels.Signature
import ArrayKernels.Signature.Reader
import ArrayKernels.Text.Alphanumeric
import ArrayKernels.Text.Blank
import ArrayKernels.Text.Outline
import ArrayKernels.Text.Printable
import ArrayKernels.Text.Quoted
import ArrayKernels.Text.Split
