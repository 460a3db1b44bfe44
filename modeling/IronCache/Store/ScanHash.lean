import IronCache.Lib.Bytes

/-!
# The scan order

The hash by which the store lists keys, fields and members.
-/

namespace IronCache.Store

def scanMix (hash : UInt64) (byte : UInt8) : UInt64 :=
  let mixed := (hash ^^^ byte.toUInt64) * 0x00000100000001B3
  mixed ^^^ (mixed >>> 33)

def scanHash (key : Bytes) : UInt64 :=
  let hash := key.foldl scanMix (0x9E3779B97F4A7C15 ^^^ 0xA0761D6478BD642F)
  let hash := hash + 0x9E3779B97F4A7C15
  let hash := (hash ^^^ (hash >>> 30)) * 0xBF58476D1CE4E5B9
  let hash := (hash ^^^ (hash >>> 27)) * 0x94D049BB133111EB
  hash ^^^ (hash >>> 31)

/-- Earlier in the scan order: by hash, then by bytes. -/
def ScanLE (left right : Bytes) : Prop :=
  scanHash left < scanHash right ∨ scanHash left = scanHash right ∧ left ≤ right

instance : DecidableRel ScanLE := fun _ _ => inferInstanceAs (Decidable (_ ∨ _))

/-- Items listed in the scan order of their keys. -/
def scanSort (key : α → Bytes) (items : List α) : List α :=
  items.insertionSort fun left right => ScanLE (key left) (key right)

theorem scanSort_perm : (scanSort key items).Perm items :=
  List.perm_insertionSort _ _

end IronCache.Store
