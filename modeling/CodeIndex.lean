import CodeIndex.Json.Records
import CodeIndex.Main
import CodeIndex.Proofs.Decomposition.Coverage
import CodeIndex.Proofs.Decomposition.ParseFailures
import CodeIndex.Proofs.Decomposition.Pruning
import CodeIndex.Proofs.Decomposition.Runs
import CodeIndex.Proofs.Embedding.Chunk
import CodeIndex.Proofs.Embedding.Fate
import CodeIndex.Proofs.Endpoint.OpenAi
import CodeIndex.Proofs.FilePath
import CodeIndex.Proofs.FileTree
import CodeIndex.Proofs.Index.CompletionOrder
import CodeIndex.Proofs.Index.Incremental
import CodeIndex.Proofs.Index.Noop
import CodeIndex.Proofs.Index.Restarts
import CodeIndex.Proofs.Index.Totals
import CodeIndex.Proofs.Index.Transactions
import CodeIndex.Proofs.Index.WellFormed
import CodeIndex.Proofs.Provider.Backoff
import CodeIndex.Proofs.Scan
import CodeIndex.Proofs.Scan.Listing
import CodeIndex.Proofs.Settings.Start
import CodeIndex.Proofs.Snapshot.Regrouping
import CodeIndex.Proofs.Store.Reading
import CodeIndex.Proofs.Store.Transactional
import CodeIndex.Provider.Mock
