import Somr.Classes.Invokables
import Somr.Classes.Reflection
import Somr.Classes.SyntaxErrors
import Somr.Classes.Variables
import Somr.Compiler.IntegerLiterals
import Somr.Compiler.StackVerification
import Somr.Compiler.SuperSends
import Somr.Foundation.TextSearch
import Somr.Interpreter.FrameRanges
import Somr.Interpreter.CodeSteps
import Somr.Interpreter.Activations
import Somr.Interpreter.Sessions
import Somr.Interpreter.Statements
import Somr.Interpreter.SuperLookup
import Somr.Library.Dictionary
import Somr.Library.GrowableList
import Somr.Library.HashtableEnumeration
import Somr.Library.Ranges
import Somr.Memory.ArraySizes
import Somr.Memory.Construction
import Somr.Memory.Globals
import Somr.Memory.ObjectHeader
import Somr.Memory.ObjectLayout
import Somr.Memory.Uninterruptable
import Somr.Primitives.Comparisons
import Somr.Primitives.DoubleCoercion
import Somr.Primitives.Equality
import Somr.Primitives.IntegerArithmetic
import Somr.Startup.ClassPaths
import Somr.Interpreter.Evaluation
import Somr.Foundation.Readings
import Somr.Interpreter.Realization
