import JLeaker.Lib.BlockHeap
import JLeaker.Lib.CHeap
import JLeaker.Lib.CString
import JLeaker.Lib.Chains
import JLeaker.Lib.Custody
import JLeaker.Lib.DeadEnds
import JLeaker.Lib.LineText
import JLeaker.Lib.LinkedList
import JLeaker.Lib.Lockstep
import JLeaker.Lib.Logged
import JLeaker.Lib.Renaming
import JLeaker.Lib.Run
import JLeaker.Lib.Transducer
import JLeaker.Lib.XmlDocument
import JLeaker.Lib.XmlTag
import JLeaker.Model.AgentOptions
import JLeaker.Model.Allocator
import JLeaker.Model.Attach
import JLeaker.Model.BitmaskSet
import JLeaker.Model.CommandLine
import JLeaker.Model.DataStruct
import JLeaker.Model.Dump
import JLeaker.Model.Dumper
import JLeaker.Model.EntryCalls
import JLeaker.Model.FieldIndex
import JLeaker.Model.Ini
import JLeaker.Model.JobjectPrint
import JLeaker.Model.JvmReference
import JLeaker.Model.LeakDetect
import JLeaker.Model.Ledger
import JLeaker.Model.LocalRefs
import JLeaker.Model.PrintReference
import JLeaker.Model.Rendezvous
import JLeaker.Model.ScanLog
import JLeaker.Model.StrMap
import JLeaker.Model.TestAndSet
import JLeaker.Model.XmlOutput
import JLeaker.Model.XmlReport
import JLeaker.Proof.AgentOptions
import JLeaker.Proof.AllocatorList
import JLeaker.Proof.AllocatorRuns
import JLeaker.Proof.Balance
import JLeaker.Proof.BitmaskSet
import JLeaker.Proof.Blocks
import JLeaker.Proof.BoundedSearch
import JLeaker.Proof.Callback
import JLeaker.Proof.Candidates
import JLeaker.Proof.ChainCorrect
import JLeaker.Proof.ChainSearch
import JLeaker.Proof.ChainsInHeap
import JLeaker.Proof.ClassNodes
import JLeaker.Proof.CommandGrammar
import JLeaker.Proof.CommandLine
import JLeaker.Proof.ConfigurationFile
import JLeaker.Proof.ConfigurationMaps
import JLeaker.Proof.DeadReferrers
import JLeaker.Proof.DumpBlocks
import JLeaker.Proof.DumpExclusion
import JLeaker.Proof.EntriesFreed
import JLeaker.Proof.EntryOwners
import JLeaker.Proof.FanIn
import JLeaker.Proof.FanInExact
import JLeaker.Proof.FieldIndex
import JLeaker.Proof.Finished
import JLeaker.Proof.FirstChain
import JLeaker.Proof.FirstPass
import JLeaker.Proof.FreeBlocks
import JLeaker.Proof.HiddenField
import JLeaker.Proof.IgnoreEntries
import JLeaker.Proof.IgnoredFields
import JLeaker.Proof.Ini
import JLeaker.Proof.IniAccepted
import JLeaker.Proof.IniFile
import JLeaker.Proof.IniText
import JLeaker.Proof.LabelsClosed
import JLeaker.Proof.LeakReport
import JLeaker.Proof.LocalRefs
import JLeaker.Proof.Masking
import JLeaker.Proof.MissingStrings
import JLeaker.Proof.MissingValue
import JLeaker.Proof.MorePasses
import JLeaker.Proof.OptionReset
import JLeaker.Proof.OwnConfiguration
import JLeaker.Proof.PlacedReport
import JLeaker.Proof.Placement
import JLeaker.Proof.PrintBlocks
import JLeaker.Proof.PrintLeaks
import JLeaker.Proof.Progress
import JLeaker.Proof.Reached
import JLeaker.Proof.RecordedGraph
import JLeaker.Proof.RecordedOnce
import JLeaker.Proof.ReferenceCounts
import JLeaker.Proof.ReferenceText
import JLeaker.Proof.Relay
import JLeaker.Proof.Release
import JLeaker.Proof.Rendezvous
import JLeaker.Proof.Renumbering
import JLeaker.Proof.RepeatedSearch
import JLeaker.Proof.ReportRelayed
import JLeaker.Proof.ReportedLeaks
import JLeaker.Proof.RoundTrip
import JLeaker.Proof.ScannedOnce
import JLeaker.Proof.SearchComplete
import JLeaker.Proof.SearchInvariant
import JLeaker.Proof.SetFamily
import JLeaker.Proof.SetOperations
import JLeaker.Proof.Setup
import JLeaker.Proof.SizeCalls
import JLeaker.Proof.StaleTags
import JLeaker.Proof.StopEarly
import JLeaker.Proof.StrMap
import JLeaker.Proof.StrMapBlocks
import JLeaker.Proof.SubsetTest
import JLeaker.Proof.Teardown
import JLeaker.Proof.WholeDump
import JLeaker.Proof.XmlReport
import JLeaker.Proof.XmlRoundTrip
