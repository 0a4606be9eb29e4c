import Mathlib.Data.List.Forall2
import Mathlib.Data.List.Nodup
import Logo.DrawEvent.Json
import Logo.Proofs.Reading

/-!
The file of a drawing log. An entry is written as an object with a member for its kind and one
for each of its parts; it is found again in every object with these members. So with every
library that keeps to the format of documents the log is read back from its text, and different
logs have different texts, as long as the library reads back their coordinates.
-/
namespace Logo

namespace Json

/-- A member of which there is only one is found. -/
theorem lookup_of_mem {entries : List (String × Json)} {name : String} {value : Json}
    (among : (name, value) ∈ entries)
    (only : ∀ other, (name, other) ∈ entries → other = value) :
    entries.lookup name = some value := by
  induction entries with
  | nil => cases among
  | cons entry entries ih =>
      obtain ⟨key, found⟩ := entry
      by_cases same : name = key
      · subst same
        rw [List.lookup_cons_self, only found List.mem_cons_self]
      · rw [List.lookup_cons, beq_false_of_ne same]
        refine ih ?_ fun other among => only other (List.mem_cons_of_mem _ among)
        exact (List.mem_cons.mp among).resolve_left fun first => same (congrArg Prod.fst first)

/-- The members asked for are found, wherever they stand and whatever stands between them. -/
theorem field?_of_perm {fields members : List (String × Json)}
    (perm : (fields.filter fun field => (members.map Prod.fst).contains field.1).Perm members)
    (distinct : (members.map Prod.fst).Nodup) {name : String} {value : Json}
    (among : (name, value) ∈ members) : (object fields).field? name = some value := by
  have asked : (members.map Prod.fst).contains name = true :=
    List.contains_iff_mem.mpr (List.mem_map_of_mem (f := Prod.fst) among)
  have known (other : Json) : (name, other) ∈ fields ↔ (name, other) ∈ members := by
    rw [← perm.mem_iff, List.mem_filter]
    simp only [asked, and_true]
  refine lookup_of_mem (List.mem_reverse.mpr ((known value).mpr among)) fun other found => ?_
  have found := (known other).mp (List.mem_reverse.mp found)
  exact congrArg Prod.snd (List.inj_on_of_nodup_map distinct found among rfl)

theorem natural?_integer {n : Nat} (fits : n < UInt64.size) : (integer n).natural? = some n := by
  unfold natural? integer?
  rw [Option.bind_some, if_pos ⟨Int.natCast_nonneg n, Int.ofNat_lt.mpr fits⟩, Int.toNat_natCast]

theorem int64?_integer (n : Int64) : (integer n.toInt).int64? = some n := by
  unfold int64? integer?
  rw [Option.bind_some]
  exact Value.int64?_eq_some_iff.mpr rfl

end Json

theorem mapM_of_forall₂ {α β : Type} {f : α → Option β} {as : List α} {bs : List β}
    (each : List.Forall₂ (fun a b => f a = some b) as bs) : as.mapM f = some bs := by
  induction each with
  | nil => rfl
  | cons first _ ih =>
      rw [List.mapM_cons, first, ih]
      rfl

namespace DrawEvent

def kind : DrawEvent → String
  | line .. => "drawLine"
  | turn .. => "rotate"
  | wait _ => "wait"

def values : DrawEvent → List Json
  | line id x1 y1 x2 y2 => [.integer id, .real x1, .real y1, .real x2, .real y2]
  | turn id change => [.integer id, .real change]
  | wait seconds => [.integer seconds.toInt]

def members (event : DrawEvent) : List (String × Json) :=
  ("drawCommand", .string event.kind) :: (fieldNames event.kind).zip event.values

theorem toJson_eq (event : DrawEvent) : event.toJson = .object event.members := by
  cases event <;> rfl

theorem nodup_members (event : DrawEvent) : (event.members.map Prod.fst).Nodup := by
  cases event <;> simp [members, kind, fieldNames, values]

/-- Objects that stand for an entry: they have its members, in any order, and perhaps others,
of other names. -/
def Describes (event : DrawEvent) (json : Json) : Prop :=
  ∃ fields, json = .object fields ∧
    (fields.filter fun field => (event.members.map Prod.fst).contains field.1).Perm event.members

theorem describes_toJson (event : DrawEvent) : event.Describes event.toJson := by
  refine ⟨event.members, event.toJson_eq, ?_⟩
  rw [List.filter_eq_self.mpr]
  exact fun field among => List.contains_iff_mem.mpr (List.mem_map_of_mem (f := Prod.fst) among)

def coordinates : DrawEvent → List Float
  | line _ x1 y1 x2 y2 => [x1, y1, x2, y2]
  | turn _ change => [change]
  | wait _ => []

/-- Entries that a file can hold: their numbers fit 64 bits and their coordinates are finite. -/
structure Storable (event : DrawEvent) : Prop where
  id : ∀ id ∈ event.id?, id < UInt64.size
  finite : ∀ x ∈ event.coordinates, x.isFinite = true

theorem ofFields?_values {event : DrawEvent} (fits : ∀ id ∈ event.id?, id < UInt64.size) :
    ofFields? event.kind event.values = some event := by
  cases event with
  | line id x1 y1 x2 y2 =>
      have number := Json.natural?_integer (fits id rfl)
      simp [ofFields?, kind, values, number, Json.real?]
  | turn id change =>
      have number := Json.natural?_integer (fits id rfl)
      simp [ofFields?, kind, values, number, Json.real?]
  | wait seconds => simp [ofFields?, kind, values, Json.int64?_integer]

/-- An entry is found in every object that stands for it. -/
theorem Describes.ofJson? {event : DrawEvent} {json : Json} (describes : event.Describes json)
    (fits : ∀ id ∈ event.id?, id < UInt64.size) : DrawEvent.ofJson? json = some event := by
  obtain ⟨fields, rfl, perm⟩ := describes
  have field {name : String} {value : Json} (among : (name, value) ∈ event.members) :=
    Json.field?_of_perm perm event.nodup_members among
  have tag := field List.mem_cons_self
  have long : (fieldNames event.kind).length = event.values.length := by cases event <;> rfl
  have found : (fieldNames event.kind).mapM (Json.object fields).field? = some event.values :=
    mapM_of_forall₂ (List.forall₂_iff_zip.mpr
      ⟨long, fun among => field (List.mem_cons_of_mem _ among)⟩)
  simp only [DrawEvent.ofJson?, tag, Json.string?, found, Option.bind_eq_bind, Option.bind_some]
  exact ofFields?_values fits

theorem exact_values {event : DrawEvent} (fits : ∀ id ∈ event.id?, id < UInt64.size)
    {kept : Float → Prop} (held : ∀ x ∈ event.coordinates, kept x) {levels : Nat} :
    ∀ value ∈ event.values, Json.Exact kept levels value := by
  have natural {n : Nat} (small : n < UInt64.size) : Json.Exact kept levels (.integer n) := by
    have size : UInt64.size = 2 ^ 64 := rfl
    exact .integer (by omega) (by omega)
  cases event with
  | line id x1 y1 x2 y2 =>
      simp only [coordinates, List.forall_mem_cons] at held
      obtain ⟨first, second, third, fourth, _⟩ := held
      simp [values, natural (fits id rfl), Json.Exact.real, first, second, third, fourth]
  | turn id change =>
      simp [values, natural (fits id rfl), Json.Exact.real, held change (by simp [coordinates])]
  | wait seconds =>
      have low := seconds.le_toInt
      have high := seconds.toInt_lt
      simpa [values] using Json.Exact.integer low (by omega)

theorem exact_toJson {event : DrawEvent} (fits : ∀ id ∈ event.id?, id < UInt64.size)
    {kept : Float → Prop} (held : ∀ x ∈ event.coordinates, kept x) (levels : Nat) :
    Json.Exact kept (levels + 1) event.toJson := by
  rw [toJson_eq]
  refine .object fun field among => ?_
  obtain rfl | among := List.mem_cons.mp among
  · exact .string _
  · exact exact_values fits held _ (List.of_mem_zip among).2

end DrawEvent

namespace DrawLog

/-- A log is found in every list of objects that stand for its entries in order. -/
theorem ofJson?_of_describes {log : DrawLog} {items : List Json}
    (fits : ∀ event ∈ log, ∀ id ∈ event.id?, id < UInt64.size)
    (describes : List.Forall₂ DrawEvent.Describes log.toList items) :
    ofJson? (.array items) = some log := by
  have read : items.mapM DrawEvent.ofJson? = some log.toList := by
    obtain ⟨long, each⟩ := List.forall₂_iff_zip.mp describes.flip
    refine mapM_of_forall₂ (List.forall₂_iff_zip.mpr ⟨long, fun {item event} among => ?_⟩)
    have stands : event.Describes item := each among
    exact stands.ofJson? (fits event (Array.mem_toList_iff.mp (List.of_mem_zip among).2))
  simp [ofJson?, Json.items?, read]

theorem describes_toJson (log : DrawLog) :
    List.Forall₂ DrawEvent.Describes log.toList (log.toList.map DrawEvent.toJson) :=
  List.forall₂_map_right_iff.mpr (List.forall₂_same.mpr fun event _ => event.describes_toJson)

theorem exact_toJson {log : DrawLog} (fits : ∀ event ∈ log, ∀ id ∈ event.id?, id < UInt64.size)
    {kept : Float → Prop} (held : ∀ event ∈ log, ∀ x ∈ event.coordinates, kept x) (levels : Nat) :
    Json.Exact kept (levels + 2) (toJson log) := by
  refine .array fun item among => ?_
  obtain ⟨event, within, rfl⟩ := List.mem_map.mp among
  have within := Array.mem_toList_iff.mp within
  exact event.exact_toJson (fits event within) (held event within) levels

section Library

variable {library : Json.Library} (standard : library.Standard) {log : DrawLog}
include standard

theorem ofTextBy?_of_denotes {text : String} {json : Json}
    (denotes : Json.Denotes library.Reads 127 text.toList json) :
    ofTextBy? library.read text = ofJson? json := by
  rw [ofTextBy?, standard.reads denotes]
  rfl

theorem ofTextBy?_textBy (storable : ∀ event ∈ log, event.Storable)
    (kept : ∀ event ∈ log, ∀ x ∈ event.coordinates, library.Keeps x) :
    ofTextBy? library.read (log.textBy library.write) = some log := by
  have fits : ∀ event ∈ log, ∀ id ∈ event.id?, id < UInt64.size :=
    fun event within => (storable event within).id
  have finite := exact_toJson fits (fun event within => (storable event within).finite) 125
  have denotes := standard.denotes_write finite (exact_toJson fits kept 125)
  rw [textBy, ofTextBy?_of_denotes standard denotes]
  exact ofJson?_of_describes fits log.describes_toJson

end Library

theorem keeps_coordinates {log : DrawLog} (storable : ∀ event ∈ log, event.Storable) :
    ∀ event ∈ log, ∀ x ∈ event.coordinates, Json.plain.Keeps x :=
  fun event within x among => Json.keeps_plain ((storable event within).finite x among)

/-- The file of a log, as it is written here, is read back as the log. -/
theorem ofTextBy?_text {log : DrawLog} (storable : ∀ event ∈ log, event.Storable) :
    ofTextBy? Json.parse? log.text = some log :=
  ofTextBy?_textBy Json.standard_plain storable (keeps_coordinates storable)

/-- With every library that keeps to the format, a log whose coordinates are read back from
their own texts is read back from its text. So is it from every text of a list of objects that
stand for its entries, and no other such log has the same text. -/
theorem text_reads_back {library : Json.Library} (standard : library.Standard) {log : DrawLog}
    (storable : ∀ event ∈ log, event.Storable)
    (kept : ∀ event ∈ log, ∀ x ∈ event.coordinates, library.Keeps x) :
    ofTextBy? library.read (log.textBy library.write) = some log ∧
      (∀ items text, List.Forall₂ DrawEvent.Describes log.toList items →
        Json.Denotes library.Reads 127 text.toList (.array items) →
          ofTextBy? library.read text = some log) ∧
      ∀ other : DrawLog, (∀ event ∈ other, event.Storable) →
        (∀ event ∈ other, ∀ x ∈ event.coordinates, library.Keeps x) →
          other.textBy library.write = log.textBy library.write → other = log := by
  have read := ofTextBy?_textBy standard storable kept
  refine ⟨read, fun items text describes denotes => ?_, fun other storable' kept' same => ?_⟩
  · rw [ofTextBy?_of_denotes standard denotes]
    exact ofJson?_of_describes (fun event within => (storable event within).id) describes
  · have read' := ofTextBy?_textBy standard storable' kept'
    rw [same, read] at read'
    exact (Option.some.inj read').symm

/-- Numbers at the ends of their ranges, and coordinates with and without an exponent. -/
def extremes : DrawLog :=
  #[.line (2 ^ 64 - 1) 0.5 (-0.0) 1e21 0.001, .turn 0 (-7.5), .wait Int64.minValue]

/-- A pause with its members in another order, and one that is not its own. -/
def shuffled : Json :=
  .object [("note", .null), ("seconds", .integer 5), ("drawCommand", .string "wait")]

theorem text_reads_back_plain :
    ofTextBy? Json.plain.read (extremes.textBy Json.plain.write) = some extremes ∧
      ofTextBy? Json.plain.read (Json.plain.write (.array [shuffled])) = some #[.wait 5] := by
  have storable : ∀ event ∈ extremes, event.Storable := by
    intro event within
    simp only [extremes, List.mem_toArray, List.mem_cons, List.not_mem_nil, or_false] at within
    obtain rfl | rfl | rfl := within
    · exact ⟨by rintro id ⟨⟩; decide, by decide +kernel⟩
    · exact ⟨by rintro id ⟨⟩; decide, by decide +kernel⟩
    · exact ⟨by rintro id ⟨⟩, by decide⟩
  have pause : ∀ event ∈ (#[.wait 5] : DrawLog), event.Storable := by
    intro event within
    obtain rfl : event = .wait 5 := by simpa using within
    exact ⟨by rintro id ⟨⟩, by decide⟩
  have describes : (DrawEvent.wait 5).Describes shuffled := ⟨_, rfl, List.Perm.swap _ _ []⟩
  have exact (kept : Float → Prop) : Json.Exact kept 127 (.array [shuffled]) := by
    refine .array (List.forall_mem_singleton.mpr (.object ?_))
    simp only [List.forall_mem_cons]
    exact ⟨.null, .integer (by decide) (by decide), .string _, nofun⟩
  refine ⟨(text_reads_back Json.standard_plain storable (keeps_coordinates storable)).1, ?_⟩
  exact (text_reads_back Json.standard_plain pause (keeps_coordinates pause)).2.1 [shuffled] _
    (.cons describes .nil) (Json.standard_plain.denotes_write (exact _) (exact _))

end DrawLog

end Logo
