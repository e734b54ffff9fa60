import SchemaHistory.CommandLine.Run
import SchemaHistory.CommandLine.Scripted
import SchemaHistory.Log.Memory
import SchemaHistory.Log.Scripted
import SchemaHistory.Main
import SchemaHistory.Proofs.Acknowledged
import SchemaHistory.Proofs.Beginning
import SchemaHistory.Proofs.BothLogs
import SchemaHistory.Proofs.File.Acknowledging
import SchemaHistory.Proofs.File.Growing
import SchemaHistory.Proofs.File.Interrupted
import SchemaHistory.Proofs.Interchange
import SchemaHistory.Proofs.Json.Built
import SchemaHistory.Proofs.Quiescence
import SchemaHistory.Settings.ClientJson
import SchemaHistory.Proofs.File.Partitions
import SchemaHistory.Proofs.Memory.Serving
import SchemaHistory.Proofs.Settings.PassThrough
import SchemaHistory.Proofs.Memory.Acknowledging
import SchemaHistory.Proofs.Memory.Visits
import SchemaHistory.Proofs.Memory.Reading
import SchemaHistory.Proofs.Memory.Latest
import SchemaHistory.Proofs.OtherPartitions
import SchemaHistory.Proofs.ProducerCalls
import SchemaHistory.Proofs.Memory.OpenConsumers
import SchemaHistory.Proofs.Waiting
import SchemaHistory.Proofs.Rewriting
import SchemaHistory.Proofs.Memory.Refused
import SchemaHistory.Proofs.Secrets
import SchemaHistory.Proofs.CommandLine.RoundTrip
import SchemaHistory.Proofs.CommandLine.Integers
import SchemaHistory.Proofs.File.Isolation
import SchemaHistory.Proofs.File.Listing
import SchemaHistory.Proofs.TwoReaders
import SchemaHistory.Proofs.Settings.Clients
import SchemaHistory.Proofs.Settings.ClientText
import SchemaHistory.Proofs.File.Counting
