import Retoken.Binary.BigEndian
import Retoken.ClassFile.Annotations
import Retoken.ClassFile.Assembler
import Retoken.ClassFile.Attribute
import Retoken.ClassFile.Basic
import Retoken.ClassFile.Bytecode
import Retoken.ClassFile.ConstantPool
import Retoken.ClassFile.ConstantPool.Layout
import Retoken.ClassFile.Cursor
import Retoken.ClassFile.Declaration
import Retoken.ClassFile.Editing
import Retoken.ClassFile.ElementLayout
import Retoken.ClassFile.Error
import Retoken.ClassFile.Loading
import Retoken.ClassFile.Member
import Retoken.ClassFile.Place
import Retoken.ClassFile.PoolExtension
import Retoken.ClassFile.Relinking
import Retoken.ClassFile.Sites
import Retoken.ClassFile.StringSite
import Retoken.ClassFile.Visiting
import Retoken.CommandLine.Basic
import Retoken.CommandLine.Error
import Retoken.CommandLine.Grammar
import Retoken.Decimal.Binary64
import Retoken.Decimal.Shortest
import Retoken.Digest.Sha256
import Retoken.Failure
import Retoken.FileSystem.AtomicWrite
import Retoken.FileSystem.Basic
import Retoken.FileSystem.Disk
import Retoken.FileSystem.Operations
import Retoken.FileSystem.OsError
import Retoken.FileSystem.Path
import Retoken.Json.Basic
import Retoken.Json.Number
import Retoken.Json.Parser
import Retoken.Json.Printer
import Retoken.Main
import Retoken.Program
import Retoken.Retokening
import Retoken.Run.Basic
import Retoken.Run.Error
import Retoken.Run.Output
import Retoken.Run.Report
import Retoken.Run.Settings
import Retoken.Run.Source
import Retoken.Text.CodePointRange
import Retoken.Text.GraphemeExtend
import Retoken.Text.Hex
import Retoken.Text.ModifiedUtf8
import Retoken.Text.Quoted
import Retoken.Text.Replacement
import Retoken.Text.Unprintable
import Retoken.Text.Utf16
import Retoken.TokenTable
import Retoken.Proofs.Declaration.ElementValue
import Retoken.Proofs.Declaration.Sites
import Retoken.Proofs.Reading
import Retoken.Proofs.Text.Utf16
import Retoken.Proofs.Text.Groups
import Retoken.Proofs.Text.ModifiedUtf8
import Retoken.Proofs.ConstantPool.Lookups
import Retoken.Proofs.Relocation.Basic
import Retoken.Proofs.Relocation.Readers
import Retoken.Proofs.Relocation.Stages
import Retoken.Proofs.Relocation.Taking
import Retoken.Proofs.Relocation.Annotations
import Retoken.Proofs.Relocation.Loading
import Retoken.Proofs.Relocation.Bytecode
import Retoken.Proofs.Relocation.Attributes
import Retoken.Proofs.Relocation.Members
import Retoken.Proofs.Declaration.Calls
import Retoken.Proofs.Relocation.Completion
import Retoken.Proofs.Relocation.Declaration
import Retoken.Proofs.ConstantPool.Serialisation
import Retoken.Proofs.Relocation.ClassFile
import Retoken.Proofs.ConstantPool.References
import Retoken.Proofs.ConstantPool.Faults
import Retoken.Proofs.ConstantPool.Inversion
import Retoken.Proofs.PoolExtension.Growth
import Retoken.Proofs.PoolExtension.Requests
import Retoken.Proofs.PoolExtension.Readable
import Retoken.Proofs.Relinking.Grouping
import Retoken.Proofs.Relinking.Patches
import Retoken.Proofs.Relinking.Redirecting
import Retoken.Proofs.Relinking.Groups
import Retoken.Proofs.Relinking.Settling
import Retoken.Proofs.Relinking.References
import Retoken.Proofs.Relinking.Written
import Retoken.Proofs.RoundTrip
import Retoken.Proofs.Relinking.Refusals
import Retoken.Proofs.SharedArguments
import Retoken.Proofs.Declaration.Located
import Retoken.Proofs.Declaration.Visiting
import Retoken.Proofs.Declaration.Shapes
import Retoken.Proofs.Declaration.Refilling
import Retoken.Proofs.Retokening
import Retoken.Proofs.Declaration.Itinerary
import Retoken.Proofs.WritingErrors
import Retoken.Proofs.Substitution
import Retoken.Proofs.Unchanged
import Retoken.Proofs.Rerun
import Retoken.Proofs.Frame
import Retoken.Proofs.PrefixFree
import Retoken.Proofs.Skipping.Survey
import Retoken.Proofs.Skipping.TwoRuns
import Retoken.Proofs.Skipping.Members
import Retoken.Proofs.FileSystem.Names
import Retoken.Proofs.FileSystem.Walking
import Retoken.Proofs.FileSystem.Keeping
import Retoken.Proofs.FileSystem.Maintaining
import Retoken.Proofs.FileSystem.Parents
import Retoken.Proofs.FileSystem.Landing
import Retoken.Proofs.FileSystem.Replacing
import Retoken.Proofs.Run.Preparing
import Retoken.Proofs.Run.Accepting
import Retoken.Proofs.Run.Shadowing
import Retoken.Proofs.Run.Scanning
import Retoken.Proofs.Run.Planning
import Retoken.Proofs.Run.Aborting
import Retoken.Proofs.Run.Accounting
import Retoken.Proofs.Run.Listing
import Retoken.Proofs.Run.Removing
import Retoken.Proofs.Run.Writing
import Retoken.Proofs.Run.Effects
import Retoken.Proofs.Run.Cleaning
import Retoken.Proofs.Skipping.ClassFile
import Retoken.Proofs.Skipping.Retokening
import Retoken.Proofs.Format.Layout
import Retoken.Proofs.Format.Annotations
import Retoken.Proofs.Format.Nesting
import Retoken.Proofs.Format.ReadingBack
import Retoken.Proofs.Format.Code
import Retoken.Proofs.Format.Instructions
import Retoken.Proofs.Format.Tiling
import Retoken.Proofs.Format.Attributes
import Retoken.Proofs.Format.Members
import Retoken.Proofs.Format.ClassFile
import Retoken.Proofs.FileSystem.Succeeding
import Retoken.Proofs.FileSystem.Furnishing
import Retoken.Proofs.FileSystem.Components
import Retoken.Proofs.FileSystem.Vacancy
import Retoken.Proofs.FileSystem.Faults
import Retoken.Proofs.FileSystem.Steadiness
import Retoken.Proofs.FileSystem.Atomicity
import Retoken.Proofs.FileSystem.Settling
import Retoken.Proofs.Run.Ordering
import Retoken.Proofs.TokenTable.Dictionary
import Retoken.Proofs.TokenTable.History
import Retoken.Proofs.Run.Tokens
import Retoken.Proofs.Visited
import Retoken.Proofs.PoolExtension.Interning
import Retoken.Proofs.PoolExtension.Calls
import Retoken.Proofs.Relinking.Room
import Retoken.Proofs.PoolGrowth
import Retoken.Proofs.ConstantPool.Chains
import Retoken.Proofs.ReferenceIntegrity
import Retoken.Proofs.Format.Stored
import Retoken.Proofs.Format.Loads
import Retoken.Proofs.Slots
