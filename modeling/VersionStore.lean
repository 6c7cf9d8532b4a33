import VersionStore.Stream.Reader
import VersionStore.Stream.Writer
import VersionStore.Text.Double
import VersionStore.Text.LetterCase
import VersionStore.Text.Quoted
import VersionStore.Json.Config
import VersionStore.Json.Entry
import VersionStore.Json.Printer
import VersionStore.Text.Report
import VersionStore.Host.RootTrash
import VersionStore.Host.Traversal
import VersionStore.Host.HeldStreams
import VersionStore.Failure
import VersionStore.Yaml.Basic
import VersionStore.Yaml.Config
import VersionStore.Command.Console
import VersionStore.Command.Files
import VersionStore.Command.Listing
import VersionStore.Command.Setup
import VersionStore.Command.Trash
import VersionStore.CommandLine.Arguments
import VersionStore.CommandLine.Request
import VersionStore.CommandLine.Run
import VersionStore.Bytes.Layout
import VersionStore.Main
import VersionStore.Json.Number
import VersionStore.Json.Parser
import VersionStore.Proofs.Action.Locks
import VersionStore.Proofs.Action.Run
import VersionStore.Proofs.Action.Works
import VersionStore.Proofs.Path
import VersionStore.Proofs.Tree.Coherent
import VersionStore.Proofs.Tree.Edits
import VersionStore.Proofs.Tree.Resolve
import VersionStore.Proofs.Tree.Rewrite
import VersionStore.Proofs.Tree.Move
import VersionStore.Proofs.Tree.Sweep
import VersionStore.Proofs.Tree.Garbage
import VersionStore.Proofs.Tree.Making
import VersionStore.Proofs.Tree.Removing
import VersionStore.Proofs.Tree.Writing
import VersionStore.Proofs.Action.Scopes
import VersionStore.Proofs.Action.Uniform
import VersionStore.Proofs.Session.Basic
import VersionStore.Proofs.Session.Calls
import VersionStore.Proofs.Stream.Reading
import VersionStore.Proofs.Stream.Caching
import VersionStore.Proofs.Stream.Opening
import VersionStore.Proofs.Stream.Writing
import VersionStore.Proofs.Session.Tree
import VersionStore.Proofs.Host.Apart
import VersionStore.Proofs.Session.Uniform
import VersionStore.Proofs.Session.Nesting
import VersionStore.Proofs.Stream.Guards
import VersionStore.Proofs.Session.Exclusion
import VersionStore.Proofs.Session.Integrity
import VersionStore.Proofs.Session.LiveTree
import VersionStore.Proofs.Session.Sweeping
import VersionStore.Proofs.Content.Carried
import VersionStore.Proofs.Content.Enduring
import VersionStore.Proofs.Content.Storing
import VersionStore.Proofs.Content.Lasting
import VersionStore.Proofs.Session.Enduring
import VersionStore.Proofs.Session.Shelved
import VersionStore.Proofs.Content.Copying
import VersionStore.Proofs.Stream.Enduring
import VersionStore.Proofs.Stream.Storing
import VersionStore.Proofs.Session.Contents
import VersionStore.Proofs.Session.Layout
import VersionStore.Proofs.Content.Contiguous
import VersionStore.Proofs.Stream.Cursor
import VersionStore.Proofs.Action.Granting
import VersionStore.Proofs.Content.AtOnce
import VersionStore.Proofs.Stream.Feeding
import VersionStore.Proofs.Stream.Starting
import VersionStore.Proofs.Session.Feeding
import VersionStore.Proofs.Content.Placing
import VersionStore.Proofs.Host.Handles
import VersionStore.Proofs.Host.Transfers
import VersionStore.Proofs.Content.Failing
import VersionStore.Proofs.Session.Failing
import VersionStore.Proofs.Content.Edited
import VersionStore.Proofs.Session.Edited
import VersionStore.Proofs.Content.Linked
import VersionStore.Proofs.Session.Linked
import VersionStore.Proofs.Content.Attached
import VersionStore.Proofs.Session.Attached
import VersionStore.Proofs.Action.Refusing
import VersionStore.Proofs.Content.Sealed
import VersionStore.Proofs.Session.Sealed
import VersionStore.Proofs.Session.Closing
import VersionStore.Proofs.Tree.Relocated
import VersionStore.Proofs.Tree.Subtree
import VersionStore.Proofs.Session.Subtree
import VersionStore.Proofs.Content.Retiring
import VersionStore.Proofs.Content.Replaced
import VersionStore.Proofs.Content.Replacing
import VersionStore.Proofs.Stream.Giving
import VersionStore.Proofs.Session.Fresh
import VersionStore.Proofs.Session.Replacing
import VersionStore.Proofs.Tree.TrashListings
import VersionStore.Proofs.Tree.Versions
import VersionStore.Proofs.Tree.TrashDirectories
import VersionStore.Proofs.Session.Listings
import VersionStore.Proofs.Content.Restoring
import VersionStore.Proofs.Session.WrittenFiles
import VersionStore.Proofs.Session.Restoring
import VersionStore.Proofs.Tree.Shelter
import VersionStore.Proofs.Content.Snapshots
import VersionStore.Proofs.Session.Answers
import VersionStore.Proofs.Session.Snapshots
import VersionStore.Proofs.Host.RootListings
import VersionStore.Proofs.Tree.Chain
import VersionStore.Proofs.Session.Making
import VersionStore.Proofs.Tree.Pruning
import VersionStore.Proofs.Session.Pruning
import VersionStore.Proofs.Stream.Places
import VersionStore.Proofs.Session.Refusals
import VersionStore.Proofs.Host.Traversals
import VersionStore.Proofs.Store.Standing
import VersionStore.Proofs.Content.PlaceOrder
import VersionStore.Proofs.Content.Ways
import VersionStore.Proofs.Stream.Absorbing
import VersionStore.Proofs.Stream.Extending
import VersionStore.Proofs.Stream.Appending
import VersionStore.Proofs.Session.Lent
import VersionStore.Proofs.Command.Console
import VersionStore.Proofs.Command.Destination
import VersionStore.Proofs.Command.Appending
import VersionStore.Proofs.Command.Putting
import VersionStore.Proofs.Path.Algebra
import VersionStore.Proofs.Text.Hexadecimal
import VersionStore.Proofs.Json.Entry
import VersionStore.Proofs.Command.Verifying
import VersionStore.Proofs.Stream.Idling
import VersionStore.Proofs.Session.Idling
import VersionStore.Proofs.Session.Isolation
import VersionStore.Proofs.Host.Holding
import VersionStore.Proofs.Host.Idling
import VersionStore.Proofs.Content.Scenes
import VersionStore.Proofs.Host.Recovery
