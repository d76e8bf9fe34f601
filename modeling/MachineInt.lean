import MachineInt.Proofs.BitCount
import MachineInt.Proofs.BitField
import MachineInt.Proofs.Bounded
import MachineInt.Proofs.ByteLength
import MachineInt.Proofs.ByteLexical
import MachineInt.Proofs.Comparison
import MachineInt.Proofs.Enumeration.Constants
import MachineInt.Proofs.Enumeration.Shadowing
import MachineInt.Proofs.Layout
import MachineInt.Proofs.Magnitude
import MachineInt.Proofs.Regrouping
import MachineInt.Proofs.ShiftLaws
import MachineInt.Proofs.Summation
