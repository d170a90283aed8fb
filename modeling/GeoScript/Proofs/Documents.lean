import GeoScript.Proofs.Coordinates
import GeoScript.Proofs.NumberTexts
import GeoScript.Proofs.Pairs
import GeoScript.Session

/-!
# Documents tell geometries apart

**Unique reading (`apart_prettyAt`).** Where a document ends in a text is told by the text: behind a
document stands nothing, a comma or the end of a line, and none of them goes on with a number. Two
texts that begin with documents of one depth and go on in such a way, and are equal, begin with the
same document. The first character tells the form of the document; in a list the character behind an
item tells whether another one follows.

**Theorem (`render_geoJson_injective`).** Geometries with finite coordinates and the same document
text are the same. The `type` tells the shape, so that lists with the same layout are not mistaken
for each other.
-/

namespace GeoScript

namespace Json

/-! ## Strings -/

/-- The value of a hexadecimal digit. -/
def hexValue (c : Char) : Nat :=
  if c.isDigit then c.toNat - '0'.toNat else c.toNat - 'a'.toNat + 10

/-- The first character of the inside of a string, and what follows it. A quote ends the string. -/
def unescape : List Char → Option (Char × List Char)
  | [] => none
  | '"' :: _ => none
  | '\\' :: 'b' :: rest => some (Char.ofNat 0x08, rest)
  | '\\' :: 't' :: rest => some (Char.ofNat 0x09, rest)
  | '\\' :: 'n' :: rest => some (Char.ofNat 0x0a, rest)
  | '\\' :: 'f' :: rest => some (Char.ofNat 0x0c, rest)
  | '\\' :: 'r' :: rest => some (Char.ofNat 0x0d, rest)
  | '\\' :: 'u' :: _ :: _ :: a :: b :: rest =>
    some (Char.ofNat (16 * hexValue a + hexValue b), rest)
  | '\\' :: c :: rest => some (c, rest)
  | c :: rest => some (c, rest)

/-- Control characters, each by its own escape. -/
theorem unescape_escape_control (rest : List Char) {n : Nat} (hn : n < 0x20) :
    unescape ((escape (Char.ofNat n)).toList ++ rest) = some (Char.ofNat n, rest) := by
  interval_cases n <;> rfl

theorem unescape_escape (c : Char) (rest : List Char) :
    unescape ((escape c).toList ++ rest) = some (c, rest) := by
  by_cases hcontrol : c.toNat < 0x20
  · rw [← Char.ofNat_toNat c]
    exact unescape_escape_control rest hcontrol
  by_cases hquote : c = '"'
  · rw [hquote]
    rfl
  by_cases hslash : c = '\\'
  · rw [hslash]
    rfl
  have hplain : escape c = c.toString := by
    have hne : ∀ n < 0x20, c.toNat ≠ n := fun n hn heq => hcontrol (heq ▸ hn)
    simp [escape, hquote, hslash, hcontrol, hne]
  rw [hplain]
  simp [unescape, hslash]

theorem toList_quote (s : String) :
    (quote s).toList = '"' :: (s.toList.flatMap fun c => (escape c).toList) ++ ['"'] := by
  simp [quote, String.toList_append, String.toList_join, List.flatMap_def, Function.comp_def]

theorem escaped_unique {cs cs' r r' : List Char}
    (h : (cs.flatMap fun c => (escape c).toList) ++ '"' :: r =
      (cs'.flatMap fun c => (escape c).toList) ++ '"' :: r') : cs = cs' ∧ r = r' := by
  induction cs generalizing cs' with
  | nil =>
    cases cs' with
    | nil => exact ⟨rfl, (List.cons.inj h).2⟩
    | cons c' cs' =>
      have hread := congrArg unescape h
      rw [List.flatMap_cons, List.append_assoc, unescape_escape] at hread
      cases hread
  | cons c cs ih =>
    have hread := congrArg unescape h
    rw [List.flatMap_cons, List.append_assoc, unescape_escape] at hread
    cases cs' with
    | nil => cases hread
    | cons c' cs' =>
      rw [List.flatMap_cons, List.append_assoc, unescape_escape] at hread
      obtain ⟨rfl, htail⟩ := Prod.mk.inj (Option.some.inj hread)
      obtain ⟨rfl, hr⟩ := ih htail
      exact ⟨rfl, hr⟩

theorem quote_unique {s s' : String} {r r' : List Char}
    (h : (quote s).toList ++ r = (quote s').toList ++ r') : s = s' ∧ r = r' := by
  rw [toList_quote, toList_quote, List.append_assoc, List.append_assoc] at h
  obtain ⟨hs, hr⟩ := escaped_unique (List.cons.inj h).2
  exact ⟨String.toList_inj.1 hs, hr⟩

/-! ## What follows a document -/

/-- Behind a document stands nothing, a comma or the end of a line. -/
def Stops (rest : List Char) : Prop := ∀ c ∈ rest.head?, c = ',' ∨ c = '\n'

/-- The texts of two things tell them apart, whatever may follow. -/
def Apart {α : Type} (text : α → String) (a b : α) : Prop :=
  ∀ r r', Stops r → Stops r' → (text a).toList ++ r = (text b).toList ++ r' → a = b ∧ r = r'

/-- A number ends where it stops. -/
theorem apart_number {x y : Float} (hx : x.isFinite = true) (hy : y.isFinite = true) :
    Apart numberFormat.text x y := by
  intro r r' hr hr' h
  have hstop : ∀ {rest}, Stops rest → ∀ c ∈ rest.head?, Decimal.isNumberChar c = false := by
    intro rest hrest c hc
    rcases hrest c hc with rfl | rfl <;> rfl
  obtain ⟨htake, hdrop⟩ :=
    Lexer.takeWhile_dropWhile_append (numberFormat.isNumberChar_text hx) (hstop hr)
  obtain ⟨htake', hdrop'⟩ :=
    Lexer.takeWhile_dropWhile_append (numberFormat.isNumberChar_text hy) (hstop hr')
  rw [h] at htake hdrop
  exact ⟨numberFormat.text_injective hx hy (htake.symm.trans htake'), hdrop.symm.trans hdrop'⟩

/-! ## Lists -/

theorem toList_lineStart (depth : Nat) :
    (lineStart depth).toList = '\n' :: List.replicate (2 * depth) ' ' := by
  rw [lineStart, String.toList_append, String.toList_ofList, String.toList_ofList]
  rfl

/-- What follows the first item of a list: the other items, each on its line, and the end. -/
def following (closing : Char) (depth : Nat) : List String → List Char
  | [] => (lineStart depth).toList ++ [closing]
  | item :: items =>
    ',' :: ((lineStart (depth + 1)).toList ++ (item.toList ++ following closing depth items))

theorem following_nil (closing : Char) (depth : Nat) :
    following closing depth [] = '\n' :: (List.replicate (2 * depth) ' ' ++ [closing]) := by
  rw [following, toList_lineStart, List.cons_append]

theorem stops_following (closing : Char) (depth : Nat) (items : List String) (r : List Char) :
    Stops (following closing depth items ++ r) := by
  intro c hc
  cases items with
  | nil =>
    rw [following_nil] at hc
    exact Or.inr (Option.some.inj hc).symm
  | cons item items => exact Or.inl (Option.some.inj hc).symm

theorem toList_items (closing : Char) (depth : Nat) (item : String) (items : List String) :
    (("," ++ lineStart (depth + 1)).intercalate (item :: items)).toList ++
      ((lineStart depth).toList ++ [closing]) = item.toList ++ following closing depth items := by
  rw [String.toList_intercalate]
  induction items generalizing item with
  | nil => simp [following]
  | cons next items ih =>
    rw [following, ← ih next]
    simp [List.intercalate_cons_cons, String.toList_append]

theorem toList_block_cons (opening closing : Char) (depth : Nat) (item : String)
    (items : List String) :
    (block opening.toString closing.toString depth (item :: items)).toList =
      opening :: ((lineStart (depth + 1)).toList ++
        (item.toList ++ following closing depth items)) := by
  rw [← toList_items]
  simp [block, String.toList_append]

section

variable {α : Type} {text : α → String} {closing : Char} {depth : Nat}

theorem following_unique {as bs : List α} (hitems : ∀ a ∈ as, ∀ b ∈ bs, Apart text a b)
    {r r' : List Char} (h : following closing depth (as.map text) ++ r =
      following closing depth (bs.map text) ++ r') : as = bs ∧ r = r' := by
  induction as generalizing bs with
  | nil =>
    cases bs with
    | nil => exact ⟨rfl, List.append_cancel_left h⟩
    | cons b bs =>
      rw [List.map_nil, following_nil] at h
      exact absurd (List.cons.inj h).1 (by decide)
  | cons a as ih =>
    cases bs with
    | nil =>
      rw [List.map_nil, following_nil] at h
      exact absurd (List.cons.inj h).1 (by decide)
    | cons b bs =>
      simp only [List.map_cons, following, List.cons_append, List.append_assoc] at h
      obtain ⟨rfl, htail⟩ := hitems a List.mem_cons_self b List.mem_cons_self _ _
        (stops_following _ _ _ _) (stops_following _ _ _ _)
        (List.append_cancel_left (List.cons.inj h).2)
      obtain ⟨rfl, hr⟩ := ih (fun x hx y hy =>
        hitems x (List.mem_cons_of_mem _ hx) y (List.mem_cons_of_mem _ hy)) htail
      exact ⟨rfl, hr⟩

/-- Lists are told apart if their items are. -/
theorem apart_block (opening : Char) (hclosing : closing ≠ '\n') {as bs : List α}
    (hitems : ∀ a ∈ as, ∀ b ∈ bs, Apart text a b) :
    Apart (fun as : List α => block opening.toString closing.toString depth (as.map text)) as bs := by
  intro r r' _ _ h
  dsimp only at h
  -- Behind the opening bracket stands the closing one, or the end of the line.
  have hempty : (block opening.toString closing.toString depth []).toList = [opening, closing] := by
    simp [block]
  cases as with
  | nil =>
    cases bs with
    | nil => exact ⟨rfl, List.append_cancel_left h⟩
    | cons b bs =>
      rw [List.map_nil, List.map_cons, hempty, toList_block_cons, toList_lineStart] at h
      exact absurd (List.cons.inj (List.cons.inj h).2).1 hclosing
  | cons a as =>
    cases bs with
    | nil =>
      rw [List.map_nil, List.map_cons, hempty, toList_block_cons, toList_lineStart] at h
      exact absurd (List.cons.inj (List.cons.inj h).2).1.symm hclosing
    | cons b bs =>
      rw [List.map_cons, List.map_cons, toList_block_cons, toList_block_cons] at h
      simp only [List.cons_append, List.append_assoc] at h
      obtain ⟨rfl, htail⟩ := hitems a List.mem_cons_self b List.mem_cons_self _ _
        (stops_following _ _ _ _) (stops_following _ _ _ _)
        (List.append_cancel_left (List.cons.inj h).2)
      obtain ⟨rfl, hr⟩ := following_unique (fun x hx y hy =>
        hitems x (List.mem_cons_of_mem _ hx) y (List.mem_cons_of_mem _ hy)) htail
      exact ⟨rfl, hr⟩

end

/-! ## Documents -/

/-- All numbers of the document are finite, and so written as numbers. -/
inductive Finite : Json → Prop
  | null : Finite .null
  | bool (b : Bool) : Finite (.bool b)
  | number {x : Float} (h : x.isFinite = true) : Finite (.number x)
  | string (s : String) : Finite (.string s)
  | array {items : List Json} (h : ∀ j ∈ items, Finite j) : Finite (.array items)
  | object {members : List (String × Json)} (h : ∀ m ∈ members, Finite m.2) :
    Finite (.object members)

/-- The forms of documents. -/
inductive Form where
  | null
  | bool
  | number
  | string
  | array
  | object

def form : Json → Form
  | .null => .null
  | .bool _ => .bool
  | .number _ => .number
  | .string _ => .string
  | .array _ => .array
  | .object _ => .object

/-- The form that the first character tells. -/
def formOf (c : Char) : Form :=
  if c = 'n' then .null
  else if c = 't' ∨ c = 'f' then .bool
  else if c = '"' then .string
  else if c = '[' then .array
  else if c = '\x7b' then .object
  else .number

theorem prettyItems_eq (depth : Nat) (items : List Json) (done : List String) :
    prettyItems depth items done = done.reverse ++ items.map (prettyAt depth) := by
  induction items generalizing done with
  | nil => rw [prettyItems, List.map_nil, List.append_nil]
  | cons j js ih => rw [prettyItems, ih, List.reverse_cons, List.map_cons, List.append_assoc]; rfl

/-- The text of a member of an object. -/
def memberText (depth : Nat) (m : String × Json) : String :=
  quote m.1 ++ ": " ++ prettyAt depth m.2

theorem prettyMembers_eq (depth : Nat) (members : List (String × Json)) (done : List String) :
    prettyMembers depth members done = done.reverse ++ members.map (memberText depth) := by
  induction members generalizing done with
  | nil => rw [prettyMembers, List.map_nil, List.append_nil]
  | cons m ms ih =>
    rw [prettyMembers, ih, List.reverse_cons, List.map_cons, List.append_assoc]
    rfl

theorem prettyAt_array (depth : Nat) (items : List Json) : prettyAt depth (.array items) =
    block '['.toString ']'.toString depth (items.map (prettyAt (depth + 1))) := by
  rw [prettyAt, prettyItems_eq]
  rfl

theorem prettyAt_object (depth : Nat) (members : List (String × Json)) :
    prettyAt depth (.object members) =
      block '\x7b'.toString '\x7d'.toString depth (members.map (memberText (depth + 1))) := by
  rw [prettyAt, prettyMembers_eq]
  rfl

theorem head_block (opening closing : Char) (depth : Nat) (items : List String) :
    ∃ cs, (block opening.toString closing.toString depth items).toList = opening :: cs := by
  cases items with
  | nil => exact ⟨[closing], by simp [block]⟩
  | cons item items => exact ⟨_, toList_block_cons ..⟩

theorem formOf_number {c : Char} (hc : Decimal.isNumberChar c = true) : formOf c = .number := by
  have hne : ∀ d ∈ ['n', 't', 'f', '"', '[', '\x7b'], c ≠ d := fun d hd =>
    Lexer.ne_of_class hc (by revert d; simp [Decimal.isNumberChar])
  simp only [List.forall_mem_cons] at hne
  simp [formOf, hne]

/-- **The first character tells the form.** -/
theorem head_prettyAt {j : Json} (hj : j.Finite) (depth : Nat) :
    ∃ c cs, (prettyAt depth j).toList = c :: cs ∧ formOf c = j.form := by
  cases hj with
  | null => exact ⟨'n', _, by rw [prettyAt]; rfl, rfl⟩
  | bool b =>
    rw [prettyAt]
    cases b with
    | true => exact ⟨'t', _, rfl, rfl⟩
    | false => exact ⟨'f', _, rfl, rfl⟩
  | @number x hx =>
    rw [prettyAt]
    obtain ⟨size, htext, -, -, c, cs, rfl, -⟩ := numberFormat.text_finite hx
    have hchars := numberFormat.isNumberChar_text hx
    obtain ⟨d, ds, hd⟩ : ∃ d ds, (numberFormat.text x).toList = d :: ds := by
      rw [htext]
      split <;> exact ⟨_, _, rfl⟩
    exact ⟨d, ds, hd, formOf_number (hchars d (hd ▸ List.mem_cons_self))⟩
  | string s =>
    rw [prettyAt, toList_quote]
    exact ⟨'"', _, rfl, rfl⟩
  | array _ =>
    rw [prettyAt_array]
    obtain ⟨cs, hcs⟩ := head_block '[' ']' depth _
    exact ⟨'[', cs, hcs, rfl⟩
  | object _ =>
    rw [prettyAt_object]
    obtain ⟨cs, hcs⟩ := head_block '\x7b' '\x7d' depth _
    exact ⟨'\x7b', cs, hcs, rfl⟩

theorem apart_of_form {j j' : Json} (hj : j.Finite) (hj' : j'.Finite) (hform : j.form ≠ j'.form)
    (depth : Nat) : Apart (prettyAt depth) j j' := by
  intro r r' _ _ h
  obtain ⟨c, cs, htext, hc⟩ := head_prettyAt hj depth
  obtain ⟨c', cs', htext', hc'⟩ := head_prettyAt hj' depth
  rw [htext, htext'] at h
  rw [← hc, ← hc', (List.cons.inj h).1] at hform
  exact absurd rfl hform

theorem apart_member {depth : Nat} {m m' : String × Json}
    (h : Apart (prettyAt depth) m.2 m'.2) : Apart (memberText depth) m m' := by
  intro r r' hr hr' htext
  simp only [memberText, String.toList_append, List.append_assoc] at htext
  obtain ⟨hkey, hrest⟩ := quote_unique htext
  obtain ⟨hvalue, hr⟩ := h r r' hr hr' (List.append_cancel_left hrest)
  exact ⟨Prod.ext hkey hvalue, hr⟩

/-- **Documents of one depth are told apart.** -/
theorem apart_prettyAt {j : Json} (hj : j.Finite) : ∀ {j' : Json}, j'.Finite → ∀ depth,
    Apart (prettyAt depth) j j' := by
  induction hj with
  | null =>
    intro j' hj' depth
    cases j' with
    | null => exact fun r r' _ _ h => ⟨rfl, List.append_cancel_left h⟩
    | _ => exact apart_of_form .null hj' nofun depth
  | bool b =>
    intro j' hj' depth
    cases j' with
    | bool b' =>
      intro r r' _ _ h
      simp only [prettyAt] at h
      cases b <;> cases b'
      · exact ⟨rfl, List.append_cancel_left h⟩
      · exact absurd (List.cons.inj h).1 (by decide)
      · exact absurd (List.cons.inj h).1 (by decide)
      · exact ⟨rfl, List.append_cancel_left h⟩
    | _ => exact apart_of_form (.bool b) hj' nofun depth
  | number hx =>
    intro j' hj' depth
    cases j' with
    | number y =>
      intro r r' hr hr' h
      cases hj' with | number hy =>
      simp only [prettyAt] at h
      obtain ⟨rfl, hr⟩ := apart_number hx hy r r' hr hr' h
      exact ⟨rfl, hr⟩
    | _ => exact apart_of_form (.number hx) hj' nofun depth
  | string s =>
    intro j' hj' depth
    cases j' with
    | string s' =>
      intro r r' _ _ h
      simp only [prettyAt] at h
      obtain ⟨rfl, hr⟩ := quote_unique h
      exact ⟨rfl, hr⟩
    | _ => exact apart_of_form (.string s) hj' nofun depth
  | array hitems ih =>
    intro j' hj' depth
    cases j' with
    | array items' =>
      intro r r' hr hr' h
      cases hj' with | array hitems' =>
      simp only [prettyAt_array] at h
      obtain ⟨rfl, hr⟩ := apart_block '[' (by decide)
        (fun j hj j' hj' => ih j hj (hitems' j' hj') (depth + 1)) r r' hr hr' h
      exact ⟨rfl, hr⟩
    | _ => exact apart_of_form (.array hitems) hj' nofun depth
  | object hmembers ih =>
    intro j' hj' depth
    cases j' with
    | object members' =>
      intro r r' hr hr' h
      cases hj' with | object hmembers' =>
      simp only [prettyAt_object] at h
      obtain ⟨rfl, hr⟩ := apart_block '\x7b' (by decide)
        (fun m hm m' hm' => apart_member (ih m hm (hmembers' m' hm') (depth + 1))) r r' hr hr' h
      exact ⟨rfl, hr⟩
    | _ => exact apart_of_form (.object hmembers) hj' nofun depth

theorem pretty_injective {j j' : Json} (hj : j.Finite) (hj' : j'.Finite)
    (h : j.pretty = j'.pretty) : j = j' :=
  (apart_prettyAt hj hj' 0 [] [] nofun nofun (congrArg (·.toList ++ []) h)).1

end Json

/-! ## Geometries -/

theorem Coord.json_injective : Function.Injective Coord.json := by
  intro a b h
  simp only [Coord.json, Json.array.injEq, List.cons.injEq, Json.number.injEq] at h
  obtain ⟨hx, hy, -⟩ := h
  cases a
  cases b
  exact congrArg₂ Coord.mk hx hy

theorem Coord.finite_json {c : Coord} (hc : c.IsFinite) : c.json.Finite := by
  apply Json.Finite.array
  intro j hj
  rcases List.mem_pair.1 hj with rfl | rfl
  · exact .number hc.x
  · exact .number hc.y

namespace Geometry

theorem finite_array {α : Type} {f : α → Json} {xs : List α} (h : ∀ x ∈ xs, (f x).Finite) :
    (Json.array (xs.map f)).Finite := by
  apply Json.Finite.array
  intro j hj
  obtain ⟨x, hx, rfl⟩ := List.mem_map.1 hj
  exact h x hx

theorem array_injective {α : Type} {f : α → Json} (hf : Function.Injective f) :
    Function.Injective fun xs : List α => Json.array (xs.map f) := by
  intro xs ys h
  exact hf.list_map (Json.array.inj h)

theorem lineJson_injective : Function.Injective lineJson := array_injective Coord.json_injective

theorem ringsJson_injective : Function.Injective ringsJson := array_injective lineJson_injective

theorem jsonMembers_eq (gs : List Geometry) (done : List Json) :
    jsonMembers gs done = done.reverse ++ gs.map json := by
  induction gs generalizing done with
  | nil => rw [jsonMembers, List.map_nil, List.append_nil]
  | cons g gs ih =>
    rw [jsonMembers, ih, List.reverse_cons, List.map_cons, List.append_assoc]
    rfl

theorem json_collection (gs : List Geometry) : (collection gs).json =
    .object [("geometries", .array (gs.map json)), ("type", .string Kind.collection.name)] := by
  rw [json, jsonMembers_eq]
  rfl

/-- Every document has the name of the shape behind one other member. -/
theorem exists_json (g : Geometry) : ∃ m, g.json = .object [m, ("type", .string g.kind.name)] := by
  cases g <;> exact ⟨_, by rw [json]; rfl⟩

theorem name_injective : Function.Injective Kind.name := by
  intro k k' h
  cases k <;> cases k' <;> first | rfl | exact absurd h (by decide)

/-- The document tells the shape. -/
theorem kind_eq_of_json {g g' : Geometry} (h : g.json = g'.json) : g.kind = g'.kind := by
  obtain ⟨m, hm⟩ := exists_json g
  obtain ⟨m', hm'⟩ := exists_json g'
  rw [hm, hm'] at h
  simp only [Json.object.injEq, List.cons.injEq, Prod.mk.injEq, Json.string.injEq] at h
  exact name_injective h.2.1.2

theorem withCoordinates_inj {k k' : Kind} {j j' : Json}
    (h : withCoordinates k j = withCoordinates k' j') : j = j' := by
  simp only [withCoordinates, Json.object.injEq, List.cons.injEq, Prod.mk.injEq] at h
  exact h.1.2

mutual

/-- **Geometries with the same document are the same.** -/
theorem json_injective : ∀ (g g' : Geometry), g.json = g'.json → g = g'
  | point c, g', h => by
    have hkind := kind_eq_of_json h
    cases g' with
    | point c' =>
      rw [json, json] at h
      rw [Coord.json_injective (withCoordinates_inj h)]
    | _ => cases hkind
  | lineString cs, g', h => by
    have hkind := kind_eq_of_json h
    cases g' with
    | lineString cs' =>
      rw [json, json] at h
      rw [lineJson_injective (withCoordinates_inj h)]
    | _ => cases hkind
  | polygon rs, g', h => by
    have hkind := kind_eq_of_json h
    cases g' with
    | polygon rs' =>
      rw [json, json] at h
      rw [ringsJson_injective (withCoordinates_inj h)]
    | _ => cases hkind
  | multiPoint cs, g', h => by
    have hkind := kind_eq_of_json h
    cases g' with
    | multiPoint cs' =>
      rw [json, json] at h
      rw [lineJson_injective (withCoordinates_inj h)]
    | _ => cases hkind
  | multiLineString ls, g', h => by
    have hkind := kind_eq_of_json h
    cases g' with
    | multiLineString ls' =>
      rw [json, json] at h
      rw [ringsJson_injective (withCoordinates_inj h)]
    | _ => cases hkind
  | multiPolygon ps, g', h => by
    have hkind := kind_eq_of_json h
    cases g' with
    | multiPolygon ps' =>
      rw [json, json] at h
      rw [array_injective ringsJson_injective (withCoordinates_inj h)]
    | _ => cases hkind
  | collection gs, g', h => by
    have hkind := kind_eq_of_json h
    cases g' with
    | collection gs' =>
      rw [json_collection, json_collection] at h
      simp only [Json.object.injEq, List.cons.injEq, Prod.mk.injEq, Json.array.injEq] at h
      rw [members_injective gs gs' h.1.2]
    | _ => cases hkind

theorem members_injective : ∀ (gs gs' : List Geometry), gs.map json = gs'.map json → gs = gs'
  | [], [], _ => rfl
  | g :: gs, g' :: gs', h => by
    obtain ⟨hhead, htail⟩ := List.cons.inj h
    rw [json_injective g g' hhead, members_injective gs gs' htail]

end

theorem finite_object {key : String} {j : Json} (hj : j.Finite) (k : Kind) :
    (Json.object [(key, j), ("type", .string k.name)]).Finite := by
  apply Json.Finite.object
  intro m hm
  rcases List.mem_pair.1 hm with rfl | rfl
  · exact hj
  · exact .string _

theorem finite_lineJson {cs : List Coord} (h : ∀ c ∈ cs, c.IsFinite) : (lineJson cs).Finite :=
  finite_array fun c hc => Coord.finite_json (h c hc)

theorem finite_ringsJson {rs : List (List Coord)} (h : ∀ c ∈ rs.flatten, c.IsFinite) :
    (ringsJson rs).Finite :=
  finite_array fun r hr => finite_lineJson fun c hc => h c (List.mem_flatten.2 ⟨r, hr, hc⟩)

mutual

/-- A geometry with finite coordinates has a document with finite numbers. -/
theorem finite_json : ∀ (g : Geometry), (∀ c ∈ g.coords, c.IsFinite) → g.json.Finite
  | point c, h => by
    rw [json]
    rw [coords_point] at h
    exact finite_object (Coord.finite_json (h c (List.mem_singleton_self c))) _
  | lineString cs, h => by
    rw [json]
    rw [coords_lineString] at h
    exact finite_object (finite_lineJson h) _
  | polygon rs, h => by
    rw [json]
    rw [coords_polygon] at h
    exact finite_object (finite_ringsJson h) _
  | multiPoint cs, h => by
    rw [json]
    rw [coords_multiPoint] at h
    exact finite_object (finite_lineJson h) _
  | multiLineString ls, h => by
    rw [json]
    rw [coords_multiLineString] at h
    exact finite_object (finite_ringsJson h) _
  | multiPolygon ps, h => by
    rw [json]
    rw [coords_multiPolygon] at h
    refine finite_object (finite_array fun rs hrs => finite_ringsJson fun c hc => h c ?_) _
    rw [List.mem_flatten] at hc ⊢
    obtain ⟨r, hr, hc⟩ := hc
    exact ⟨r, List.mem_flatten.2 ⟨rs, hrs, hr⟩, hc⟩
  | collection gs, h => by
    rw [json_collection]
    rw [coords_collection] at h
    exact finite_object (finite_array (finite_members gs fun g hg c hc =>
      h c (List.mem_flatMap.2 ⟨g, hg, hc⟩))) _

theorem finite_members : ∀ (gs : List Geometry), (∀ g ∈ gs, ∀ c ∈ g.coords, c.IsFinite) →
    ∀ g ∈ gs, g.json.Finite
  | [], _, g, hg => nomatch hg
  | g₀ :: gs, h, g, hg => by
    rcases List.mem_cons.1 hg with hg | hg
    · exact hg ▸ finite_json g₀ (h g₀ List.mem_cons_self)
    · exact finite_members gs (fun g hg => h g (List.mem_cons_of_mem _ hg)) g hg

end

/-- **The text of the document identifies the geometry**, if its coordinates are finite: its shape,
its nesting, with lists that may be empty at any level, and its coordinates, the two zeros
included. -/
theorem render_geoJson_injective (g g' : Geometry) (hg : ∀ c ∈ g.coords, c.IsFinite)
    (hg' : ∀ c ∈ g'.coords, c.IsFinite)
    (h : ResultFormat.geoJson.render (.geometry g) = ResultFormat.geoJson.render (.geometry g')) :
    g = g' :=
  json_injective g g' (Json.pretty_injective (finite_json g hg) (finite_json g' hg') h)

/-- A sum and the literal of its shortest digits, in a collection whose other member has an empty
ring: one text, and one geometry. With the other zero the text is another one. -/
theorem render_geoJson_injective_sum :
    let g (x y : Float) : Geometry := .collection [.polygon [[]], .multiPoint [⟨x, y⟩]]
    let text (g : Geometry) : String := ResultFormat.geoJson.render (.geometry g)
    text (g (0.1 + 0.2) 0) = text (g 0.30000000000000004 0) ∧
      g (0.1 + 0.2) 0 = g 0.30000000000000004 0 ∧
      text (g 1e300 0) ≠ text (g 1e300 (-0)) := by
  intro g text
  have hfinite : ∀ x y : Float, x.isFinite = true → y.isFinite = true →
      ∀ c ∈ (g x y).coords, c.IsFinite := by
    intro x y hx hy c hc
    obtain rfl : c = ⟨x, y⟩ := by simpa [g] using hc
    exact ⟨hx, hy⟩
  have htext : text (g (0.1 + 0.2) 0) = text (g 0.30000000000000004 0) := by decide +kernel
  refine ⟨htext, ?_, ?_⟩
  · exact render_geoJson_injective _ _ (hfinite _ _ (by decide +kernel) (by decide +kernel))
      (hfinite _ _ (by decide +kernel) (by decide +kernel)) htext
  · intro h
    have heq := render_geoJson_injective _ _
      (hfinite _ _ (by decide +kernel) (by decide +kernel))
      (hfinite _ _ (by decide +kernel) (by decide +kernel)) h
    have hzero : (0 : Float) = -0 := by simpa [g] using heq
    exact absurd hzero (by decide +kernel)

end Geometry

end GeoScript
