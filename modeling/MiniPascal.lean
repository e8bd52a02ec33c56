import MiniPascal.Main
import MiniPascal.Proofs.Blocks
import MiniPascal.Proofs.Continuation
import MiniPascal.Proofs.Declarations
import MiniPascal.Proofs.FaultPlaces
import MiniPascal.Proofs.Histories
import MiniPascal.Proofs.IntegerArithmetic
import MiniPascal.Proofs.Labels
import MiniPascal.Proofs.Layout
import MiniPascal.Proofs.Loops
import MiniPascal.Proofs.Machine
import MiniPascal.Proofs.Printing
import MiniPascal.Proofs.Rereading
import MiniPascal.Proofs.Scoping
import MiniPascal.Proofs.Segmentation
import MiniPascal.Proofs.Sessions
import MiniPascal.Proofs.StaticTypes
import MiniPascal.Proofs.Streaming
import MiniPascal.Proofs.SyntaxFaults
import MiniPascal.Proofs.Warnings
import MiniPascal.Proofs.Plans
import MiniPascal.Proofs.Seeking
import MiniPascal.Proofs.Termination
import MiniPascal.Proofs.Writing
import MiniPascal.Proofs.JsonReading
import MiniPascal.Proofs.InstructionText
import MiniPascal.Proofs.WrittenListings
import MiniPascal.Proofs.CompileCommand
import MiniPascal.Proofs.ScannerProgress
