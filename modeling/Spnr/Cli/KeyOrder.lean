import Spnr.Cli.Pristine
import Spnr.Cli.Uninstall
import Spnr.Lib.SwapOut

/-! The order of the keys that stay behind when spnr's own go: `remove_hooks` on both levels,
and the fallback of `restore`. -/
namespace Spnr.Cli

open IndexMap Json Settings

variable {J : SerdeJson}

theorem mem_keys {map : Map} {k : String} {v : Json} (found : map.lookup k = some v) :
    k ∈ keys map := by
  induction map with
  | nil => cases found
  | cons e map ih =>
    obtain ⟨x, w⟩ := e
    rw [lookup_entry] at found
    by_cases here : k = x
    · exact here ▸ List.mem_cons_self
    · rw [if_neg (by simpa using here)] at found
      exact List.mem_cons_of_mem _ (ih found)

theorem readObject_serialize {map : Map} (stored : Json.Stored J.IsFloat 127 (.obj map))
    (path : String) : readObject J path (some (serialize J map)) = .ok map :=
  readObject_of_parsed (parsed_serialize stored) path

end Spnr.Cli
