import Mos6502.Directory
import Mos6502.Main
import Mos6502.Proofs.CarryChain
import Mos6502.Proofs.DataSheet
import Mos6502.Proofs.Listing
import Mos6502.Proofs.SessionTrace
import Mos6502.Proofs.Termination
import Mos6502.Proofs.TokenGrammar
import Mos6502.Interface
import Mos6502.Proofs.IndirectRules
import Mos6502.Proofs.StraightLine
import Mos6502.Proofs.Transparency
import Mos6502.Proofs.Requests
import Mos6502.Proofs.RunState
import Mos6502.Proofs.ArithmeticStep
import Mos6502.Proofs.EffectiveAddress
import Mos6502.Proofs.FailedCommands
import Mos6502.Proofs.ProgramFiles
import Mos6502.Proofs.Composition
import Mos6502.Proofs.Assembly
import Mos6502.Proofs.Dispatch
import Mos6502.Proofs.Faults
import Mos6502.Proofs.Loading
import Mos6502.Proofs.LastFrames
import Mos6502.Proofs.BusPattern
import Mos6502.Proofs.Arguments
import Mos6502.Proofs.DemoRun
import Mos6502.Proofs.TypedAddress
