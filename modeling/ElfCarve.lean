import ElfCarve.Buffer
import ElfCarve.FileSystem.Fresh
import ElfCarve.FileSystem.Listing
import ElfCarve.FileSystem.State
import ElfCarve.Main
import ElfCarve.Proofs.Carving.Frame
import ElfCarve.Proofs.Carving.Independence
import ElfCarve.Proofs.Carving.Refusal
import ElfCarve.Proofs.Carving.Repetition
import ElfCarve.Proofs.Carving.Session
import ElfCarve.Proofs.Command.Grammar
import ElfCarve.Proofs.Command.Interference
import ElfCarve.Proofs.Command.Keeping
import ElfCarve.Proofs.Command.Refinement
import ElfCarve.Proofs.Image.Split
import ElfCarve.Proofs.Text.Json.Grammar
import ElfCarve.Proofs.Text.Json.Reader
import ElfCarve.Proofs.Report.Recovery
import ElfCarve.Proofs.Image.Windows
import ElfCarve.Proofs.Buffer
import ElfCarve.Proofs.FileSystem.Contrast
import ElfCarve.Proofs.Carving.Padding
import ElfCarve.Proofs.Path.Parent
import ElfCarve.Proofs.FileSystem.Parent
import ElfCarve.Proofs.FileSystem.Obstacle
import ElfCarve.Proofs.Carving.Parent
import ElfCarve.Proofs.Carving.Storage
import ElfCarve.Proofs.Command.Verbosity
