import Rehome.Text.Basic
import Rehome.Text.Blank
import Rehome.Text.Utf8
import Rehome.Text.Plain
import Rehome.Import.Basic
import Rehome.Import.Reading
import Rehome.Import.Statement
import Rehome.Import.Placement
import Rehome.Rules.Basic
import Rehome.Rules.Document
import Rehome.Rewrite
import Rehome.Files.Path
import Rehome.Files.Tree
import Rehome.Files.Access
import Rehome.Files.Walk
import Rehome.Files.Changes
import Rehome.Files.Growth
import Rehome.Fault
import Rehome.Log
import Rehome.Summary.Basic
import Rehome.Summary.Text
import Rehome.Summary.Json
import Rehome.Run
import Rehome.Command.Basic
import Rehome.Main
import Rehome.Proofs.Import.Form
import Rehome.Proofs.Import.Crossing
import Rehome.Proofs.Import.Boundary
import Rehome.Proofs.Import.Insertion
import Rehome.Proofs.Rewrite.Table
import Rehome.Proofs.Import.Grammar
import Rehome.Proofs.Import.Search
import Rehome.Proofs.Import.Tidy
import Rehome.Proofs.Import.Broken
import Rehome.Proofs.Rewrite.Outside
import Rehome.Proofs.Rewrite.Settle
import Rehome.Proofs.Rewrite.Batch
import Rehome.Proofs.Rewrite.Repeat
import Rehome.Proofs.Rewrite.Names
import Rehome.Proofs.Run.Halt
import Rehome.Proofs.Run.Report
import Rehome.Proofs.Run.Restart
import Rehome.Proofs.Run.Rehearsal
import Rehome.Proofs.Rules.Validity
import Rehome.Proofs.Json.Spelling
import Rehome.Proofs.Json.Written
import Rehome.Proofs.Rules.Document
import Rehome.Proofs.Rewrite.Listed
import Rehome.Proofs.Rewrite.LineBreak
import Rehome.Proofs.Rewrite.Leading
import Rehome.Proofs.Rewrite.Comment
import Rehome.Proofs.Files.Found
import Rehome.Proofs.Json.Grammar
import Rehome.Proofs.Json.Printed
import Rehome.Proofs.Summary.Readback
import Rehome.Proofs.Import.Replace
import Rehome.Proofs.Text.Slice
import Rehome.Proofs.Rewrite.Bytewise
