import Rowcast.Elapsed
import Rowcast.Main
import Rowcast.Proofs.Column.Canonical
import Rowcast.Proofs.Column.Definition
import Rowcast.Proofs.Column.PassThrough
import Rowcast.Proofs.Column.Provenance
import Rowcast.Proofs.Column.Recoercion
import Rowcast.Proofs.Column.Reordering
import Rowcast.Proofs.Column.SafeInteger
import Rowcast.Proofs.Column.Segments
import Rowcast.Proofs.Column.Union
import Rowcast.Proofs.Conversion.Order
import Rowcast.Proofs.Csv.BlankRecord
import Rowcast.Proofs.Csv.Concatenation
import Rowcast.Proofs.Csv.Index
import Rowcast.Proofs.Csv.Insertion
import Rowcast.Proofs.Csv.Trimming
import Rowcast.Proofs.Csv.Watch
import Rowcast.Proofs.Csv.Writing
import Rowcast.Proofs.Json.Layout
import Rowcast.Proofs.Record.Insertion
import Rowcast.Proofs.Settings.Effective
import Rowcast.Proofs.Settings.Override
import Rowcast.Proofs.Settings.Quoting
import Rowcast.Proofs.Storage.Folder
import Rowcast.Proofs.Table.Drawable
import Rowcast.Proofs.Text.Utf8
import Rowcast.Storage.Memory
