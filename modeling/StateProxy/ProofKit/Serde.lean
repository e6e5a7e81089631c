import StateProxy.ProofKit.Json

/-! How typed values become JSON values and come back: codecs for the types of fields, for the
fields of a variant, and for the variants of an enumeration.  A codec says which values come back,
with the proof that these are all of them.  `SerdeJson` is what a program sees of a JSON library. -/

namespace StateProxy.ProofKit

def utf8 (s : String) : List UInt8 :=
  s.toByteArray.data.toList

def ofUtf8 (bytes : List UInt8) : Option String :=
  String.fromUTF8? ⟨bytes.toArray⟩

@[simp] theorem ofUtf8_utf8 (s : String) : ofUtf8 (utf8 s) = some s := by
  simp [ofUtf8, utf8, String.fromUTF8?, s.isValidUTF8, String.fromUTF8]

@[simp] theorem utf8_inj {s t : String} : utf8 s = utf8 t ↔ s = t := by
  refine ⟨fun h => ?_, fun h => by rw [h]⟩
  have hsome := congrArg ofUtf8 h
  rw [ofUtf8_utf8, ofUtf8_utf8] at hsome
  exact Option.some.inj hsome

/-- The string can stand in a literal as it is. -/
def Raw (s : String) : Prop :=
  ∀ b ∈ utf8 s, ¬ NeedsEscape b

instance (s : String) : Decidable (Raw s) :=
  inferInstanceAs (Decidable (∀ b ∈ utf8 s, ¬ NeedsEscape b))

/-- How the values of a type are written and read. -/
structure Codec (α : Type) where
  serialize : α → Json (List UInt8)
  deserialize : Json Literal → Option α
  /-- What a field that is not there is read as. -/
  missing : Option α
  /-- The values that come back. -/
  Recovers : α → Prop
  recovers_iff : ∀ a, deserialize (serialize a).literals = some a ↔ Recovers a
  maxDepth : Nat
  depth_le : ∀ a, (serialize a).depth ≤ maxDepth

namespace Codec

variable {α : Type}

def u32 : Codec UInt32 where
  serialize n := .number n.toUInt64
  deserialize
    | .number n => if n.toNat < 2 ^ 32 then some n.toUInt32 else none
    | _ => none
  missing := none
  Recovers _ := True
  recovers_iff n := by simp [Json.literals, n.toNat_lt]
  maxDepth := 0
  depth_le _ := by simp [Json.depth]

def u64 : Codec UInt64 where
  serialize n := .number n
  deserialize
    | .number n => some n
    | _ => none
  missing := none
  Recovers _ := True
  recovers_iff n := by simp [Json.literals]
  maxDepth := 0
  depth_le _ := by simp [Json.depth]

/-- A string that the reader owns. -/
def string : Codec String where
  serialize s := .string (utf8 s)
  deserialize
    | .string literal => ofUtf8 literal.bytes
    | _ => none
  missing := none
  Recovers _ := True
  recovers_iff s := by simp [Json.literals, Literal.of]
  maxDepth := 0
  depth_le _ := by simp [Json.depth]

/-- A string that is borrowed from the text. -/
def str : Codec String where
  serialize s := .string (utf8 s)
  deserialize
    | .string literal => if literal.isRaw then ofUtf8 literal.bytes else none
    | _ => none
  missing := none
  Recovers s := Raw s
  recovers_iff s := by simp [Json.literals, Literal.of, Raw]
  maxDepth := 0
  depth_le _ := by simp [Json.depth]

/-- The literals of a list of items, read one by one. -/
theorem mapM_recovers_iff (c : Codec α) (as : List α) :
    (as.map fun a => (c.serialize a).literals).mapM c.deserialize = some as ↔
      ∀ a ∈ as, c.Recovers a := by
  induction as with
  | nil => simp
  | cons a as ih =>
    rw [List.map_cons, List.mapM_cons, List.forall_mem_cons, ← c.recovers_iff, ← ih]
    cases hfirst : c.deserialize (c.serialize a).literals with
    | none => simp
    | some a' =>
      cases hrest : (as.map fun a => (c.serialize a).literals).mapM c.deserialize <;> simp

theorem depthItems_le {σ : Type} {bound : Nat} {items : List (Json σ)}
    (h : ∀ v ∈ items, v.depth ≤ bound) : Json.depthItems items ≤ bound := by
  induction items with
  | nil => exact Nat.zero_le _
  | cons v items ih =>
    rw [List.forall_mem_cons] at h
    exact max_le h.1 (ih h.2)

def vec (c : Codec α) : Codec (List α) where
  serialize as := .array (as.map c.serialize)
  deserialize
    | .array items => items.mapM c.deserialize
    | _ => none
  missing := none
  Recovers as := ∀ a ∈ as, c.Recovers a
  recovers_iff as := by
    simp only [Json.literals, Json.literalItems_eq, List.map_map]
    exact c.mapM_recovers_iff as
  maxDepth := c.maxDepth + 1
  depth_le as := by
    refine Nat.succ_le_succ (depthItems_le fun v hv => ?_)
    obtain ⟨a, -, rfl⟩ := List.mem_map.mp hv
    exact c.depth_le a

/-- Bytes that are borrowed from the text: they are written as an array of numbers, and read from a
string literal. -/
def byteSlice : Codec (List UInt8) where
  serialize bytes := .array (bytes.map fun b => .number b.toUInt64)
  deserialize
    | .string literal => if literal.isRaw then some literal.bytes else none
    | _ => none
  missing := none
  Recovers _ := False
  recovers_iff bytes := by simp [Json.literals]
  maxDepth := 1
  depth_le bytes := by
    refine Nat.succ_le_succ (depthItems_le fun v hv => ?_)
    obtain ⟨b, -, rfl⟩ := List.mem_map.mp hv
    exact le_refl 0

def option (c : Codec α) : Codec (Option α) where
  serialize
    | none => .null
    | some a => c.serialize a
  deserialize
    | .null => some none
    | v => (c.deserialize v).map some
  missing := some none
  Recovers o := ∀ a, o = some a → c.serialize a ≠ .null ∧ c.Recovers a
  recovers_iff o := by
    cases o with
    | none => simp [Json.literals]
    | some a =>
      simp only [Option.some.injEq, forall_eq', ← c.recovers_iff]
      cases hwritten : c.serialize a <;> simp [Json.literals]
  maxDepth := c.maxDepth
  depth_le o := by
    cases o with
    | none => exact Nat.zero_le _
    | some a => exact c.depth_le a

@[simp] theorem u32_recovers (n : UInt32) : u32.Recovers n := trivial

@[simp] theorem u64_recovers (n : UInt64) : u64.Recovers n := trivial

@[simp] theorem string_recovers (s : String) : string.Recovers s := trivial

@[simp] theorem str_recovers (s : String) : str.Recovers s ↔ Raw s := Iff.rfl

@[simp] theorem byteSlice_recovers (bytes : List UInt8) : ¬ byteSlice.Recovers bytes := id

@[simp] theorem vec_recovers (c : Codec α) (as : List α) :
    c.vec.Recovers as ↔ ∀ a ∈ as, c.Recovers a := Iff.rfl

@[simp] theorem option_u32_recovers (o : Option UInt32) : u32.option.Recovers o :=
  fun _ _ => ⟨nofun, trivial⟩

@[simp] theorem option_u64_recovers (o : Option UInt64) : u64.option.Recovers o :=
  fun _ _ => ⟨nofun, trivial⟩

@[simp] theorem option_str_recovers (o : Option String) :
    str.option.Recovers o ↔ ∀ s, o = some s → Raw s := by
  simp [option, str]

@[simp] theorem option_byteSlice_recovers (o : Option (List UInt8)) :
    byteSlice.option.Recovers o ↔ o = none := by
  cases o <;> simp [option, byteSlice]

end Codec

/-- How the fields of a variant are written and read.  A field is looked up by its name. -/
structure Fields (α : Type) where
  names : List String
  serialize : α → List (String × Json (List UInt8))
  deserialize : (String → Option (Json Literal)) → Option α
  /-- The values that come back. -/
  Recovers : α → Prop
  names_serialize : ∀ a, (serialize a).map Prod.fst = names
  recovers_iff : ∀ a lookup, (∀ name v, (name, v) ∈ serialize a → lookup name = some v.literals) →
    (deserialize lookup = some a ↔ Recovers a)
  maxDepth : Nat
  depth_le : ∀ a name v, (name, v) ∈ serialize a → v.depth ≤ maxDepth

namespace Fields

variable {α β : Type}

def field (name : String) (c : Codec α) : Fields α where
  names := [name]
  serialize a := [(name, c.serialize a)]
  deserialize lookup :=
    match lookup name with
    | some v => c.deserialize v
    | none => c.missing
  Recovers := c.Recovers
  names_serialize _ := rfl
  recovers_iff a lookup h := by
    rw [h name (c.serialize a) (List.mem_singleton.mpr rfl)]
    exact c.recovers_iff a
  maxDepth := c.maxDepth
  depth_le a name v h := by
    cases List.mem_singleton.mp h
    exact c.depth_le a

/-- The fields of `f` and those of `g`. -/
def and (f : Fields α) (g : Fields β) : Fields (α × β) where
  names := f.names ++ g.names
  serialize a := f.serialize a.1 ++ g.serialize a.2
  deserialize lookup := do
    let a ← f.deserialize lookup
    let b ← g.deserialize lookup
    some (a, b)
  Recovers a := f.Recovers a.1 ∧ g.Recovers a.2
  names_serialize a := by rw [List.map_append, f.names_serialize, g.names_serialize]
  recovers_iff a lookup h := by
    rw [← f.recovers_iff a.1 lookup fun name v hmem => h name v (List.mem_append_left _ hmem),
      ← g.recovers_iff a.2 lookup fun name v hmem => h name v (List.mem_append_right _ hmem)]
    cases f.deserialize lookup <;> cases g.deserialize lookup <;> simp [Prod.ext_iff]
  maxDepth := max f.maxDepth g.maxDepth
  depth_le a name v h := by
    rcases List.mem_append.mp h with h | h
    · exact le_max_of_le_left (f.depth_le a.1 name v h)
    · exact le_max_of_le_right (g.depth_le a.2 name v h)

@[simp] theorem field_recovers (name : String) (c : Codec α) (a : α) :
    (field name c).Recovers a ↔ c.Recovers a := Iff.rfl

@[simp] theorem and_recovers (f : Fields α) (g : Fields β) (a : α × β) :
    (f.and g).Recovers a ↔ f.Recovers a.1 ∧ g.Recovers a.2 := Iff.rfl

/-- The members of an object, looked up by name. -/
def lookup (members : List (Literal × Json Literal)) (name : String) : Option (Json Literal) :=
  (members.find? fun member => member.1.bytes = utf8 name).map Prod.snd

/-- The fields of a variant: an object whose keys are names of fields, each at most once, or an
array with one item for each field. -/
def read (f : Fields α) : Json Literal → Option α
  | .object members =>
    if (∀ member ∈ members, member.1.bytes ∈ f.names.map utf8) ∧
        (members.map (·.1.bytes)).Nodup then
      f.deserialize (lookup members)
    else none
  | .array items =>
    if items.length = f.names.length then
      f.deserialize (lookup ((f.names.map fun name => .of (utf8 name)).zip items))
    else none
  | _ => none

def members (f : Fields α) (a : α) : List (List UInt8 × Json (List UInt8)) :=
  (f.serialize a).map fun (name, v) => (utf8 name, v)

theorem depth_members (f : Fields α) (a : α) : Json.depthMembers (f.members a) ≤ f.maxDepth := by
  have hdepth := f.depth_le a
  unfold members
  generalize f.serialize a = written at hdepth
  induction written with
  | nil => exact Nat.zero_le _
  | cons first written ih =>
    exact max_le (hdepth first.1 first.2 List.mem_cons_self)
      (ih fun name v hmem => hdepth name v (List.mem_cons_of_mem _ hmem))

theorem lookup_literalMembers {written : List (String × Json (List UInt8))}
    (hnodup : (written.map Prod.fst).Nodup) {name : String} {v : Json (List UInt8)}
    (h : (name, v) ∈ written) :
    lookup (Json.literalMembers (written.map fun (name, v) => (utf8 name, v))) name =
      some v.literals := by
  rw [Json.literalMembers_eq, List.map_map]
  induction written with
  | nil => cases h
  | cons first written ih =>
    obtain ⟨name', v'⟩ := first
    rw [List.map_cons, List.nodup_cons] at hnodup
    rcases List.mem_cons.mp h with heq | h
    · cases heq
      simp [lookup, Literal.of]
    · have hne : name' ≠ name := fun heq => hnodup.1 (List.mem_map.mpr ⟨(name, v), h, heq.symm⟩)
      have hnext := ih hnodup.2 h
      simp only [lookup, List.map_cons, Function.comp_apply, Literal.of] at hnext ⊢
      rw [List.find?_cons_of_neg (by simpa using hne)]
      exact hnext

theorem read_members_iff (f : Fields α) (hnodup : f.names.Nodup) (a : α) :
    f.read (Json.object (f.members a)).literals = some a ↔ f.Recovers a := by
  have hkeys : (Json.literalMembers (f.members a)).map (·.1.bytes) = f.names.map utf8 := by
    rw [← f.names_serialize a, Json.literalMembers_eq, members, List.map_map, List.map_map,
      List.map_map]
    rfl
  have hknown : ∀ member ∈ Json.literalMembers (f.members a),
      member.1.bytes ∈ f.names.map utf8 := by
    intro member hmem
    rw [← hkeys]
    exact List.mem_map_of_mem hmem
  have hdistinct : ((Json.literalMembers (f.members a)).map (·.1.bytes)).Nodup := by
    rw [hkeys]
    exact hnodup.map fun _ _ => utf8_inj.mp
  simp only [Json.literals, read]
  rw [if_pos ⟨hknown, hdistinct⟩]
  refine f.recovers_iff a _ fun name v hmem => ?_
  exact lookup_literalMembers (by rwa [f.names_serialize]) hmem

end Fields

/-- A variant of an enumeration, with its fields. -/
structure Variant (μ : Type) where
  {Content : Type}
  name : String
  fields : Fields Content
  build : Content → μ
  names_nodup : fields.names.Nodup := by decide
  build_injective : Function.Injective build := by
    intro x y h
    simpa [Prod.ext_iff] using h

namespace Variant

variable {μ : Type}

/-- A variant is written as an object with its name as the only key. -/
def serialize (v : Variant μ) (a : v.Content) : Json (List UInt8) :=
  .object [(utf8 v.name, .object (v.fields.members a))]

/-- The variant with the name that the only key of an object has. -/
def read (variants : List (Variant μ)) : Json Literal → Option μ
  | .object [(key, content)] =>
    (variants.find? fun v => utf8 v.name = key.bytes).bind fun v =>
      (v.fields.read content).map v.build
  | _ => none

theorem find?_of_mem {variants : List (Variant μ)} (hnodup : (variants.map name).Nodup)
    {v : Variant μ} (h : v ∈ variants) :
    variants.find? (fun v' => utf8 v'.name = utf8 v.name) = some v := by
  induction variants with
  | nil => cases h
  | cons first variants ih =>
    rw [List.map_cons, List.nodup_cons] at hnodup
    rcases List.mem_cons.mp h with rfl | h
    · simp
    · have hne : first.name ≠ v.name := fun heq => hnodup.1 (heq ▸ List.mem_map_of_mem h)
      rw [List.find?_cons_of_neg (by simpa using hne)]
      exact ih hnodup.2 h

theorem read_serialize_iff {variants : List (Variant μ)} (hnodup : (variants.map name).Nodup)
    {v : Variant μ} (h : v ∈ variants) (a : v.Content) :
    read variants (v.serialize a).literals = some (v.build a) ↔ v.fields.Recovers a := by
  rw [← v.fields.read_members_iff v.names_nodup]
  simp only [serialize, Json.literals, Json.literalMembers, read, Literal.of,
    find?_of_mem hnodup h, Option.bind_some]
  rw [Option.map_eq_some_iff]
  refine ⟨?_, fun hread => ⟨a, hread, rfl⟩⟩
  rintro ⟨a', hread, heq⟩
  rw [hread, v.build_injective heq]

theorem depth_serialize (v : Variant μ) (a : v.Content) :
    (v.serialize a).depth ≤ v.fields.maxDepth + 2 := by
  have hfields := v.fields.depth_members a
  simp only [serialize, Json.depth, Json.depthMembers]
  omega

end Variant

/-- What a program sees of a JSON library: `to_vec`, and of a stream of values over a buffer the
first one, and the offset after it.  A type is read by what it makes of the literals of a value. -/
structure SerdeJson where
  Error : Type
  isEof : Error → Bool
  toVec : Json (List UInt8) → Except Error (List UInt8)
  next : {α : Type} → (Json Literal → Option α) → List UInt8 → Option (Except Error α)
  byteOffset : {α : Type} → (Json Literal → Option α) → List UInt8 → Nat

/-- How the library is documented: every value is written; an object that was written, not nested
too deep, is read from the front of a buffer, and the offset is then its end; it is an error when
the type makes nothing of it. -/
structure SerdeJson.Documented (s : SerdeJson) : Prop where
  writes : ∀ v, ∃ text, s.toVec v = .ok text
  reads : ∀ {α : Type} (de : Json Literal → Option α) {members text a} (rest : List UInt8),
    (Json.object members).depth < 128 → s.toVec (.object members) = .ok text →
    de (Json.object members).literals = some a →
    s.next de (text ++ rest) = some (.ok a) ∧ s.byteOffset de (text ++ rest) = text.length
  rejects : ∀ {α : Type} (de : Json Literal → Option α) {members text} (rest : List UInt8),
    (Json.object members).depth < 128 → s.toVec (.object members) = .ok text →
    de (Json.object members).literals = none → ∃ e, s.next de (text ++ rest) = some (.error e)

/-- The library of compact texts. -/
def SerdeJson.compact : SerdeJson where
  Error := Json.Error
  isEof e := e = .eof
  toVec v := .ok v.text
  next de buffer :=
    if buffer = [] then none
    else some (Json.read buffer >>= fun (v, _) => (de v).elim (.error .malformed) .ok)
  byteOffset _ buffer :=
    match Json.read buffer with
    | .ok (_, offset) => offset
    | .error _ => 0

theorem SerdeJson.compact_next {α : Type} (de : Json Literal → Option α)
    (members : List (List UInt8 × Json (List UInt8))) (rest : List UInt8) :
    SerdeJson.compact.next de ((Json.object members).text ++ rest) =
      some ((de (Json.object members).literals).elim (.error .malformed) .ok) := by
  have hne : (Json.object members).text ++ rest ≠ [] := by
    have hpos := Json.length_text_pos (.object members)
    exact List.append_ne_nil_of_left_ne_nil (List.ne_nil_of_length_pos hpos) _
  simp only [compact, if_neg hne, Json.read_object]
  rfl

theorem SerdeJson.compact_documented : SerdeJson.compact.Documented where
  writes v := ⟨v.text, rfl⟩
  reads := by
    intro α de members text a rest _ htext hde
    cases Except.ok.inj htext
    refine ⟨?_, ?_⟩
    · rw [compact_next, hde]
      rfl
    · simp only [compact, Json.read_object]
  rejects := by
    intro α de members text rest _ htext hde
    cases Except.ok.inj htext
    refine ⟨Json.Error.malformed, ?_⟩
    rw [compact_next, hde]
    rfl

end StateProxy.ProofKit
