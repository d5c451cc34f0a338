import TriforceScript.Command
import TriforceScript.Main
import TriforceScript.Proofs.Compilation.Finality
import TriforceScript.Proofs.Compilation.Printing
import TriforceScript.Proofs.Grammar.Language
import TriforceScript.Proofs.JavaScript.Injectivity
import TriforceScript.Proofs.Reader.Viability
import TriforceScript.Proofs.Session.Batch
import TriforceScript.Text.Template
import TriforceScript.Proofs.Scan.Places
import TriforceScript.Proofs.Session.Agreement
import TriforceScript.Proofs.Files.Writing
import TriforceScript.Proofs.JavaScript.Plain
import TriforceScript.Proofs.Reader.Plain
import TriforceScript.Proofs.Compilation.Plain
import TriforceScript.Proofs.Command.Effects
import TriforceScript.Proofs.Command.Plain
import TriforceScript.Proofs.Command.Jobs
import TriforceScript.Proofs.Command.Runs
import TriforceScript.Proofs.Command.Output
import TriforceScript.Proofs.Command.Colours
import TriforceScript.Proofs.Scan.Positions
import TriforceScript.Proofs.Compilation.Emission
import TriforceScript.Proofs.JavaScript.Listing
import TriforceScript.Proofs.Command.Delivery
import TriforceScript.Proofs.Compilation.FaultPlaces
import TriforceScript.Proofs.JavaScript.Containment
import TriforceScript.Proofs.Reader.Endings
import TriforceScript.Proofs.Reader.Places
import TriforceScript.Proofs.Grammar.Account
import TriforceScript.Proofs.Compilation.SourceOrder
import TriforceScript.Proofs.Descent.Expressions
import TriforceScript.Proofs.Descent.Statements
import TriforceScript.Proofs.Descent.Endings
import TriforceScript.Proofs.Text.Painting
import TriforceScript.Proofs.Text.Templates
import TriforceScript.Proofs.Command.History
import TriforceScript.Proofs.Scan.Classes
import TriforceScript.Proofs.Scan.Walk
import TriforceScript.Proofs.Scan.Bounds
import TriforceScript.Proofs.Descent.Progress
