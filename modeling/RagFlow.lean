import RagFlow.Agent.Dependencies
import RagFlow.Agent.ExecuteOnce
import RagFlow.Agent.Iteration
import RagFlow.Agent.Substitution
import RagFlow.Ask.ThinkStream
import RagFlow.GraphRag.CrashSafety
import RagFlow.GraphRag.Rebuild
import RagFlow.GraphRag.Neighbors
import RagFlow.GraphRag.NodeMerge
import RagFlow.GraphRag.RelationScores
import RagFlow.GraphRag.Consistency
import RagFlow.Raptor.PsiBuckets
import RagFlow.Metadata.DocSelection
import RagFlow.Metadata.GoAgreement
import RagFlow.Retrieval.Service
import RagFlow.Editor.SwitchRouting
import RagFlow.Editor.Integrity
import RagFlow.Editor.Compilation
import RagFlow.Documents.Counters
import RagFlow.Documents.PageTasks
import RagFlow.Overseas.Accounts
import RagFlow.Overseas.Authority
import RagFlow.Executor.Delivery
import RagFlow.Messaging.Conservation
import RagFlow.Redis.DistributedLock
import RagFlow.Redis.IdGenerator
import RagFlow.Memory.Capacity
import RagFlow.GraphRag.PostMerge
import RagFlow.Sync.BlobRefinement
import RagFlow.Sync.CancelSafety
import RagFlow.Sync.PollingSafety
import RagFlow.Sync.PruneSafety
import RagFlow.Sync.RdbmsWindows
import RagFlow.Sync.MetadataRouting
import RagFlow.Lib.ConsumerGroup
import RagFlow.Files.DeleteAgreement
import RagFlow.Files.DeleteStorage
import RagFlow.Files.GoMove
import RagFlow.Files.FreeNames
import RagFlow.Files.Uploading
import RagFlow.FullText.Segmentation
import RagFlow.FullText.TokenMerge
import RagFlow.Editor.Connections
import RagFlow.Metadata.BucketOrder
import RagFlow.Editor.NodeNames
import RagFlow.Ask.Citations
import RagFlow.Agent.References
import RagFlow.Agent.VariableLaws
import RagFlow.Mcp.Correlation
import RagFlow.Mcp.PinnedClient
import RagFlow.Ingestion.Conservation
import RagFlow.Chunking.GroupChunker
import RagFlow.Chunking.HierarchyChunker
import RagFlow.Chunking.HtmlSections
import RagFlow.Chunking.JsonSplitter
import RagFlow.Chunking.Spreadsheet
import RagFlow.Chunking.TableContent
import RagFlow.Chunking.TreeMerge
import RagFlow.Chunking.HierarchicalMerge
import RagFlow.Chunking.ContentsTable
import RagFlow.Pdf.ContentsPages
import RagFlow.Pdf.TableFigures
import RagFlow.Pdf.PageWindows
import RagFlow.Chunking.NaiveMerge
import RagFlow.Chunking.TokenChunker
import RagFlow.Chunking.DocxOrder
import RagFlow.Chunking.MediaFrame
import RagFlow.Retrieval.ChildrenKept
import RagFlow.Rerank.ByModel
import RagFlow.Ask.CitationsKept
import RagFlow.Pdf.ChunkMetadata
import RagFlow.Ask.RepairCitations
import RagFlow.Prompts.KbPrompt
import RagFlow.Prompts.MessageFit
import RagFlow.Raptor.GenerateRaptor
