import RowFilter.StreamCache
import RowFilter.Error.Report
import RowFilter.Expr.Value
import RowFilter.Selector
import RowFilter.Proofs.LiteralPool.Growth
import RowFilter.Proofs.Emission.Agreement
import RowFilter.Proofs.Operand.Loading
import RowFilter.Proofs.Operand.Application
import RowFilter.Proofs.Expr.Compilation
import RowFilter.Expr.Meaning
import RowFilter.Proofs.Expr.Meaning
import RowFilter.Proofs.StreamCache.History
import RowFilter.Proofs.StreamCache.Transparency
import RowFilter.Proofs.Comparison.IntLeaf
import RowFilter.Proofs.Comparison.NullOrdering
import RowFilter.Proofs.Instruction.Portability
import RowFilter.Proofs.Selector.RowLoop
import RowFilter.Proofs.StreamCache.Fifo
import RowFilter.Proofs.Operand.Coherence
import RowFilter.Proofs.Emission.Coherence
import RowFilter.Proofs.Arith.Null
import RowFilter.Proofs.Expr.NullPropagation
import RowFilter.Proofs.Emission.Postfix
import RowFilter.Proofs.Code.NullFree
import RowFilter.Proofs.Emission.NullCheck
import RowFilter.Proofs.Expr.Truth
import RowFilter.Proofs.Selector.BooleanAlgebra
import RowFilter.Proofs.Instruction.RoundTrip
import RowFilter.Proofs.Instruction.Decoding
import RowFilter.Proofs.Code.Reads
import RowFilter.Proofs.Operand.Closure
import RowFilter.Proofs.Emission.Noninterference
import RowFilter.Proofs.Emission.Addressing
import RowFilter.Proofs.Memory.Stored
import RowFilter.Proofs.Memory.Fields
import RowFilter.Proofs.Emission.StoredReads
import RowFilter.Proofs.Comparison.Registers
import RowFilter.Proofs.Expr.OperandPair
import RowFilter.Proofs.Comparison.Conversion
import RowFilter.Proofs.Comparison.Exact
import RowFilter.Proofs.Comparison.Partition
import RowFilter.Proofs.Comparison.FloatPartition
import RowFilter.Proofs.Arith.Division
import RowFilter.Proofs.Selector.NativeDivision
import RowFilter.Proofs.Expr.Polynomial
import RowFilter.Proofs.Operand.Promotion
import RowFilter.Proofs.Expr.StaticType
import RowFilter.Proofs.Emission.PooledLiterals
import RowFilter.Expr.Meaning
import RowFilter.Proofs.Expr.Meaning
