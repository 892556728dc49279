import ServiceRegistry.Record
import ServiceRegistry.Ring.Blake3

/-! # Hash rings

A ring spreads keys over records. Every record stands at a number of points, each the hash of its
identity followed by an offset; the offsets are the same for every record, so that two rings over
mostly the same records agree on most keys. A key is served by the first point at or above its own
hash, and above the highest point by the lowest one. Records are placed in the order of their
identities, and of two that meet on one point the later one has it.

The hash and the offsets are a parameter (`Ring.Layout`); `Layout.standard` is the one in use. -/

namespace ServiceRegistry

/-- Where a ring puts texts: the hash of a text, and the offsets of a record's points. -/
structure Ring.Layout where
  point : String → UInt32
  offsets : List Int

/-- Records at their points. -/
structure Ring where
  /-- Each point once, ascending, with the record that has it. -/
  points : List (UInt32 × Record)
  /-- The records in the order of their identities. -/
  records : List Record

namespace Ring

/-- Why a ring can not serve a key. -/
inductive Error where
  | empty
deriving DecidableEq, Repr

/-- The wording of an error. -/
def Error.message : Error → String
  | .empty => "Hash ring is empty"

/-! ### Building -/

/-- Give a point to a record, whoever had it before. -/
def place (point : UInt32) (r : Record) : List (UInt32 × Record) → List (UInt32 × Record)
  | [] => [(point, r)]
  | p :: ps =>
    if point < p.1 then (point, r) :: p :: ps
    else if point = p.1 then (point, r) :: ps
    else p :: place point r ps

/-- The points of a record, in the order of the offsets. -/
def pointsOf (layout : Layout) (r : Record) : List UInt32 :=
  let id := r.id.text
  layout.offsets.map fun offset => layout.point (id ++ toString offset)

/-- Records in the order of their identities; records of one identity keep their order. -/
def inOrder (records : List Record) : List Record :=
  records.mergeSort fun a b => a.id.le b.id

/-- The ring over some records. -/
def build (layout : Layout) (records : List Record) : Ring where
  points := ((inOrder records).flatMap fun r => (pointsOf layout r).map (·, r)).foldl
    (fun ps (point, r) => place point r ps) []
  records := inOrder records

/-! ### Asking -/

/-- The record that serves a point. -/
def atPoint? (ring : Ring) (point : UInt32) : Option Record :=
  match ring.points.find? fun p => point ≤ p.1 with
  | some p => some p.2
  | none => ring.points.head?.map (·.2)

/-- The record that serves a key. -/
def get (layout : Layout) (ring : Ring) (key : String) : Except Error Record :=
  match ring.atPoint? (layout.point key) with
  | some r => .ok r
  | none => .error .empty

/-- The number of records. -/
def size (ring : Ring) : Nat := ring.records.length

/-- The records that have a point of their own, so that some key can reach them. -/
def reachable (ring : Ring) : List Record := ring.records.filter fun r => ring.points.any (·.2 = r)

/-! ### The layout in use -/

namespace Layout

/-- The point of a text: the first word of its hash. -/
def hashPoint (s : String) : UInt32 := (Blake3.hash (.ofText s)).toList.headD 0

/-- The hundred offsets of every record's points. -/
def hundredOffsets : List Int := [
  -852725889, -1154859086, -1910019717, -972981100, -818869738, 111001858, -1410992432, -1786022371,
  -555648239, 1126014292, 527549474, -979308783, 302217491, 939296079, -906010169, -885993958,
  -1643282516, -1076583250, -2017970092, -133411357, -644317314, -15816835, 1213208576, 598617211,
  198490043, 484751483, -40499627, -151029521, 884675568, 212171618, 1849415330, 1828376452,
  -1495190886, 1978174563, 821076776, -325289412, -19575110, 975132144, 1702370557, -1892653380,
  -1349031189, 667391263, -1198350236, -706524039, 1995394993, 878643607, 325009139, -2134043480,
  -513913203, -1555854384, -1084816168, 2056642569, 1479250479, -532244761, -886495958, -555509380,
  -1151205034, 271577128, -321084651, -56304584, 693850995, 931138443, 1876721159, -98554910,
  1275841650, -354576146, 1667408037, -1386400495, 1628334484, 64531984, -778900841, 297304634,
  -618791453, -1640013528, -1284925267, -1658848622, -1410220399, -922397086, 1395640168,
  -1434997742, -581400178, 362522843, -789587641, 360624912, -194266002, -2067116774, -596935466,
  -1061123416, 1090601667, -567905067, 711931205, 376259972, 1012515995, 1508057994, -438593352,
  804671003, -493229296, -2051095272, -1618611619, -100172506]

/-- The layout in use. -/
def standard : Layout := ⟨hashPoint, hundredOffsets⟩

example : hundredOffsets.length = 100 := rfl

end Layout

end Ring

end ServiceRegistry
