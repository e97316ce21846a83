import Narf.Memory.VmaRun

/-! Coalescing when memory is short. The destination's block directory is given room beforehand; the
    slots of its blocks are allocated by the append, when the sources have left the table, and a
    refusal there panics. Requests for memory are numbered and answered by a schedule. -/

namespace Narf.Memory
open Lib RegionPerms
open List hiding lookup
open Option (bind_eq_bind bind_some map_eq_some_iff map_some)

namespace RegionBacking
def allocated_slots (b : RegionBacking) : Nat := (b.blocks.entries.map (fun e => e.2.length)).sum
variable {b : RegionBacking} {i frame frame' n : Nat} {alloc : Nat → Bool}
end RegionBacking

namespace RegionTable
open RegionBacking
variable {t : RegionTable}
/-- The slots that the sources store. -/
def stored (sources : List Region) : Nat := (sources.map (·.phys.allocated_slots)).sum
end RegionTable
end Narf.Memory
