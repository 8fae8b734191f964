import FileRouter.Bytes.Cursor
import FileRouter.Call
import FileRouter.Disk.Basic
import FileRouter.Disk.Change
import FileRouter.Disk.Fault
import FileRouter.Disk.FileSystem
import FileRouter.Disk.Handle
import FileRouter.Disk.Lookup
import FileRouter.Disk.NativePath
import FileRouter.Disk.Provider
import FileRouter.Disk.Window
import FileRouter.Failure.Basic
import FileRouter.Failure.Conversion
import FileRouter.Failure.Message
import FileRouter.Key
import FileRouter.KeyMap
import FileRouter.Makers
import FileRouter.Memory.Drive
import FileRouter.Memory.Handle
import FileRouter.Memory.Tree
import FileRouter.Proofs.Agreement
import FileRouter.Proofs.Call
import FileRouter.Proofs.Catalog
import FileRouter.Proofs.Contents
import FileRouter.Proofs.Cursor
import FileRouter.Proofs.Disk.Absolute
import FileRouter.Proofs.Disk.Canonical
import FileRouter.Proofs.Disk.Change
import FileRouter.Proofs.Disk.Contents
import FileRouter.Proofs.Disk.Handle
import FileRouter.Proofs.Disk.Lookup
import FileRouter.Proofs.Disk.Opening
import FileRouter.Proofs.Disk.Parent
import FileRouter.Proofs.Disk.Path
import FileRouter.Proofs.Disk.Pruned
import FileRouter.Proofs.Disk.Reading
import FileRouter.Proofs.Disk.Request
import FileRouter.Proofs.Disk.Run
import FileRouter.Proofs.Disk.Stream
import FileRouter.Proofs.Disk.Transfer
import FileRouter.Proofs.Disk.Tree
import FileRouter.Proofs.Disk.Window
import FileRouter.Proofs.Failure
import FileRouter.Proofs.Key
import FileRouter.Proofs.KeyMap
import FileRouter.Proofs.Memory.Bookkeeping
import FileRouter.Proofs.Memory.Canonical
import FileRouter.Proofs.Memory.Clearing
import FileRouter.Proofs.Memory.Contents
import FileRouter.Proofs.Memory.Drive
import FileRouter.Proofs.Memory.Failing
import FileRouter.Proofs.Memory.FreshName
import FileRouter.Proofs.Memory.Handle
import FileRouter.Proofs.Memory.Listing
import FileRouter.Proofs.Memory.Moving
import FileRouter.Proofs.Memory.Placing
import FileRouter.Proofs.Memory.Protected
import FileRouter.Proofs.Memory.Publishing
import FileRouter.Proofs.Memory.Reading
import FileRouter.Proofs.Memory.Run
import FileRouter.Proofs.Memory.Saving
import FileRouter.Proofs.Memory.StaleHandle
import FileRouter.Proofs.Memory.Stream
import FileRouter.Proofs.Memory.Sweeping
import FileRouter.Proofs.Memory.Tree
import FileRouter.Proofs.Quoted
import FileRouter.Proofs.RandomAccess
import FileRouter.Proofs.Registry
import FileRouter.Proofs.Registry.History
import FileRouter.Proofs.Registry.Lookup
import FileRouter.Proofs.Request
import FileRouter.Proofs.Rooted
import FileRouter.Proofs.Scheme
import FileRouter.Proofs.Scheme.Split
import FileRouter.Proofs.Spec.Locator
import FileRouter.Proofs.Spec.Parse
import FileRouter.Proofs.Spec.Plain
import FileRouter.Proofs.Spec.Query
import FileRouter.Proofs.Store.Climbing
import FileRouter.Proofs.Store.Command
import FileRouter.Proofs.Store.Copy
import FileRouter.Proofs.Store.Delete
import FileRouter.Proofs.Store.Depiction
import FileRouter.Proofs.Store.Directories
import FileRouter.Proofs.Store.DiskCopy
import FileRouter.Proofs.Store.DiskDelete
import FileRouter.Proofs.Store.DiskDepiction
import FileRouter.Proofs.Store.DriveCopy
import FileRouter.Proofs.Store.Lineage
import FileRouter.Proofs.Store.Lockstep
import FileRouter.Proofs.Store.MemoryDepiction
import FileRouter.Proofs.Store.ReadOnly
import FileRouter.Proofs.Store.Releasing
import FileRouter.Proofs.Store.SelfCopy
import FileRouter.Proofs.Store.Stream
import FileRouter.Proofs.Store.Tasks
import FileRouter.Proofs.Store.Transparency
import FileRouter.Proofs.Store.TryDelete
import FileRouter.Proofs.Stream
import FileRouter.Proofs.Text
import FileRouter.Proofs.Tokens
import FileRouter.Proofs.World.Building
import FileRouter.Proofs.World.Delegation
import FileRouter.Proofs.World.Files
import FileRouter.Proofs.World.Grounded
import FileRouter.Proofs.World.Handles
import FileRouter.Proofs.World.Layers
import FileRouter.Proofs.World.Memory
import FileRouter.Proofs.World.Parents
import FileRouter.Proofs.World.PlainView
import FileRouter.Proofs.World.Reading
import FileRouter.Proofs.World.Results
import FileRouter.Proofs.World.Routes
import FileRouter.Proofs.World.Stacked
import FileRouter.Proofs.World.Views
import FileRouter.Registry
import FileRouter.Request
import FileRouter.Scheme
import FileRouter.Script
import FileRouter.Session.Run
import FileRouter.Session.Step
import FileRouter.Spec.Basic
import FileRouter.Spec.HostAddress
import FileRouter.Spec.Locator
import FileRouter.Store.Basic
import FileRouter.Store.Content
import FileRouter.Store.Copy
import FileRouter.Store.Delete
import FileRouter.Store.Directories
import FileRouter.Text.Basic
import FileRouter.Text.Blank
import FileRouter.Text.Percent
import FileRouter.Text.Printable
import FileRouter.Text.Quoted
import FileRouter.Text.Utf8
import FileRouter.Tokens
import FileRouter.Total
import FileRouter.View
import FileRouter.World.Basic
import FileRouter.World.Display
import FileRouter.World.Providers
import FileRouter.World.Stores
