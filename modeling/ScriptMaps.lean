import ScriptMaps.Fixture
import ScriptMaps.Main
import ScriptMaps.Proofs.Command.Analysis
import ScriptMaps.Proofs.Command.Configuration
import ScriptMaps.Proofs.Command.Query
import ScriptMaps.Proofs.Command.Reading
import ScriptMaps.Proofs.Disk.Discovery
import ScriptMaps.Proofs.Fixture.Traversal
import ScriptMaps.Proofs.Include.Balance
import ScriptMaps.Proofs.Include.Candidates
import ScriptMaps.Proofs.Include.Directive
import ScriptMaps.Proofs.Include.Directories
import ScriptMaps.Proofs.Include.Reachability
import ScriptMaps.Proofs.Include.Recursion
import ScriptMaps.Proofs.Include.Termination
import ScriptMaps.Proofs.Include.Tree
import ScriptMaps.Proofs.Report.Csv
import ScriptMaps.Proofs.Script.Assignment
import ScriptMaps.Proofs.Script.CodeLines
import ScriptMaps.Proofs.Script.Comments
import ScriptMaps.Proofs.Script.Declaration
import ScriptMaps.Proofs.Script.Encoding
import ScriptMaps.Proofs.Script.Groups
import ScriptMaps.Proofs.Script.Growth
import ScriptMaps.Proofs.Script.Isolation
import ScriptMaps.Proofs.Script.Spelling
import ScriptMaps.Proofs.Tracker.Depth
import ScriptMaps.Proofs.Tracker.History
import ScriptMaps.Proofs.Tracker.Identity
import ScriptMaps.Proofs.Tracker.Saved
import ScriptMaps.Proofs.Tracker.Transparency
