import Arcane.Lib.JsonRoundTrip

/-!
# The code points of a JSON text, and its sorted form

* `forall_render`: what holds of the text of a value.
* `scalar_render_iff`: a text without `\uXXXX` for more than control characters can be encoded
  exactly when no string in the value holds a surrogate.
* `render_sorted`: `sort_keys` writes the value with the members of all its objects sorted, so that
  the text is the same for values that differ in the order of members (`Same`).
-/

namespace Json

open Text

section CodePoints

variable {F : Type} [FloatText F] (S : Style)

@[simp]
theorem renderItems_eq (items : List (Json F)) : renderItems S items = items.map (render S) := by
  induction items with
  | nil => rfl
  | cons v l ih => rw [renderItems, ih, List.map_cons]

@[simp]
theorem renderMembers_eq (members : List (Str × Json F)) :
    renderMembers S members = members.map fun m => (m.1, render S m.2) := by
  induction members with
  | nil => rfl
  | cons m l ih => rw [renderMembers, ih, List.map_cons]

/-- Printable ASCII. -/
def Printable (c : CodePoint) : Prop := 32 ≤ c.val ∧ c.val < 128

instance (c : CodePoint) : Decidable (Printable c) :=
  inferInstanceAs (Decidable (32 ≤ c.val ∧ c.val < 128))

/-- The text is printable ASCII; as a test on its characters, which `decide` runs. -/
def printableText (s : String) : Bool := s.toList.all fun x => 32 ≤ x.toNat && x.toNat < 128

theorem printable_lit {s : String} (h : printableText s = true) : ∀ c ∈ lit s, Printable c := by
  intro c hc
  obtain ⟨x, hx, rfl⟩ := List.mem_map.mp hc
  have hchar := List.all_eq_true.mp h x hx
  rw [Bool.and_eq_true, decide_eq_true_eq, decide_eq_true_eq] at hchar
  exact hchar

theorem isScalar_of_lt {c : CodePoint} (h : c.val < 128) : IsScalar c := .inl (by omega)

theorem printable_of_isNumber {c : CodePoint} (h : isNumber c = true) : Printable c := by
  have hv := val_of_isNumber h
  constructor <;> omega

theorem printable_number {t : Str} {b : Bool} (h : numberForm t = some b) :
    ∀ c ∈ t, Printable c := fun c hc => printable_of_isNumber ((of_numberForm h).1 c hc)

theorem printable_float (x : Double F) : ∀ c ∈ renderFloat x, Printable c := by
  cases x with
  | finite x => exact printable_number (FloatText.repr_form x)
  | nan => exact printable_lit (by decide)
  | infinity => exact printable_lit (by decide)
  | negInfinity => exact printable_lit (by decide)

theorem printable_hexDigit (d : ℕ) : Printable (hexDigit d) := by
  unfold hexDigit Printable
  split <;> constructor <;> simp only [] <;> omega

theorem printable_escapeUnit (n : ℕ) : ∀ c ∈ escapeUnit n, Printable c := by
  intro c hc
  simp only [escapeUnit, List.mem_cons, List.not_mem_nil, or_false] at hc
  rcases hc with rfl | rfl | rfl | rfl | rfl | rfl
  · decide
  · decide
  all_goals exact printable_hexDigit _

theorem printable_escapeUnits (c : CodePoint) : ∀ d ∈ escapeUnits c, Printable d := by
  intro d hd
  unfold escapeUnits at hd
  split at hd
  · exact printable_escapeUnit _ d hd
  · rcases List.mem_append.mp hd with hd | hd <;> exact printable_escapeUnit _ d hd

/-- What has a two-character escape is ASCII, and so is the escape. -/
theorem shortEscape_ascii {c e : CodePoint} (h : shortEscape c = some e) :
    c.val < 128 ∧ Printable e := by
  simp only [shortEscape] at h
  split at h
  · next hc =>
    cases h
    rcases hc with rfl | rfl <;> decide
  iterate 5
    split at h
    · next hc =>
      cases h
      exact ⟨by omega, by decide⟩
  cases h

/-- The code points of an escape: printable ASCII, or the code point itself. -/
theorem of_mem_escape {c d : CodePoint} (h : d ∈ escape S c) :
    Printable d ∨ d = c ∧ 32 ≤ c.val := by
  unfold escape at h
  split at h
  · next e he =>
    simp only [List.mem_cons, List.not_mem_nil, or_false] at h
    rcases h with rfl | rfl
    · exact .inl (by decide)
    · exact .inl (shortEscape_ascii he).2
  · split at h
    · exact .inl (printable_escapeUnits c d h)
    · next hn =>
      rw [List.mem_singleton] at h
      exact .inr ⟨h, by omega⟩

theorem of_mem_renderString {s : Str} {d : CodePoint} (h : d ∈ renderString S s) :
    Printable d ∨ d ∈ s ∧ 32 ≤ d.val := by
  simp only [renderString, List.cons_append, List.mem_cons, List.mem_append, List.mem_flatMap,
    List.not_mem_nil, or_false] at h
  rcases h with rfl | ⟨c, hc, hd⟩ | rfl
  · exact .inl (by decide)
  · rcases of_mem_escape S hd with hd | ⟨rfl, hd⟩
    · exact .inl hd
    · exact .inr ⟨hc, hd⟩
  · exact .inl (by decide)

/-- A code point of a string that is not escaped is in the text, unless it is ASCII. -/
theorem mem_renderString (hS : ∀ c, S.escapes c = false) {s : Str} {c : CodePoint} (hc : c ∈ s) :
    c.val < 128 ∨ c ∈ renderString S s := by
  by_cases h : c.val < 128
  · exact .inl h
  · have hn : shortEscape c = none := by
      rw [Option.eq_none_iff_forall_ne_some]
      exact fun e he => h (shortEscape_ascii he).1
    have hm : c ∈ escape S c := by
      have hc : ¬ (c.val < 32 ∨ S.escapes c = true) := by
        rw [hS c]
        simp only [Bool.false_eq_true, or_false]
        omega
      simp [escape, hn, hc]
    refine .inr ?_
    simp only [renderString, List.cons_append, List.mem_cons, List.mem_append, List.mem_flatMap]
    exact .inr (.inl ⟨c, hc, hm⟩)

theorem printable_sep (c : Char) (hc : Printable (ofChar c)) : ∀ d ∈ sep S c, Printable d := by
  intro d hd
  unfold sep at hd
  split at hd
  · simp only [List.mem_cons, List.not_mem_nil, or_false] at hd
    rcases hd with rfl | rfl
    · exact hc
    · decide
  · rw [List.mem_singleton] at hd
    rwa [hd]

theorem of_mem_joined {ts : List Str} {c : CodePoint} (h : c ∈ joined S ts) :
    Printable c ∨ ∃ t ∈ ts, c ∈ t := by
  induction ts using joined.induct with
  | case1 => cases h
  | case2 t => exact .inr ⟨t, by simp, h⟩
  | case3 t ts hts ih =>
    rw [joined] at h
    · rcases List.mem_append.mp h with h | h
      · rcases List.mem_append.mp h with h | h
        · exact .inr ⟨t, by simp, h⟩
        · exact .inl (printable_sep S ',' (by decide) c h)
      · refine (ih h).imp_right ?_
        rintro ⟨u, hu, hc⟩
        exact ⟨u, List.mem_cons_of_mem _ hu, hc⟩
    · exact hts

theorem mem_joined {ts : List Str} {t : Str} (ht : t ∈ ts) {c : CodePoint} (hc : c ∈ t) :
    c ∈ joined S ts := by
  induction ts using joined.induct with
  | case1 => cases ht
  | case2 u =>
    rw [List.mem_singleton] at ht
    exact ht ▸ hc
  | case3 u ts hts ih =>
    rw [joined]
    · rcases List.mem_cons.mp ht with rfl | ht
      · simp [hc]
      · simp [ih ht]
    · exact hts

/-- The members in the order in which they are written. -/
def written {α : Type} (members : List (Str × α)) : List (Str × α) :=
  if S.sortKeys then sorted members else members

theorem mem_written {α : Type} {members : List (Str × α)} {m : Str × α} :
    m ∈ written S members ↔ m ∈ members := by
  unfold written sorted
  split
  · exact List.mem_mergeSort
  · rfl

theorem render_arr (items : List (Json F)) :
    render S (.arr items) = ofChar '[' :: joined S (items.map (render S)) ++ [ofChar ']'] := by
  rw [render, renderItems_eq]

theorem render_obj (members : List (Str × Json F)) :
    render S (.obj members) =
      ofChar '{' :: joined S ((written S (members.map fun m => (m.1, render S m.2))).map (member S))
        ++ [ofChar '}'] := by
  rw [render, renderMembers_eq]
  rfl

/-- The code points of the strings in a value with `Q`. -/
def charsHere (Q : CodePoint → Prop) : Json F → Prop
  | .str s => ∀ c ∈ s, 32 ≤ c.val → Q c
  | .bytes _ => ∀ c ∈ unwritable, Q c
  | .obj members => ∀ k ∈ Assoc.keys members, ∀ c ∈ k, 32 ≤ c.val → Q c
  | _ => True

/-- What holds of printable ASCII and of the strings in a value holds of its text. -/
theorem forall_render {Q : CodePoint → Prop} (hQ : ∀ c, Printable c → Q c) {v : Json F}
    (hv : All (charsHere Q) v) : ∀ c ∈ render S v, Q c := by
  have hb : ∀ c : Char, Printable (ofChar c) → Q (ofChar c) := fun c hc => hQ _ hc
  induction v using Json.induction with
  | null =>
    have hp : ∀ c ∈ lit "null", Printable c := printable_lit (by decide)
    exact fun c hc => hQ c (hp c hc)
  | bool b =>
    have hp : ∀ c ∈ (if b then lit "true" else lit "false"), Printable c := by
      cases b <;> exact printable_lit (by decide)
    exact fun c hc => hQ c (hp c hc)
  | int n => exact fun c hc => hQ c (printable_number (numberForm_intText n) c hc)
  | float x => exact fun c hc => hQ c (printable_float x c hc)
  | str s => exact fun c hc => (of_mem_renderString S hc).elim (hQ c) fun h => hv c h.1 h.2
  | bytes b => exact hv
  | arr items ih =>
    rw [all_arr] at hv
    intro c hc
    simp only [render_arr, List.cons_append, List.mem_cons, List.mem_append, List.not_mem_nil,
      or_false] at hc
    rcases hc with rfl | hc | rfl
    · exact hb _ (by decide)
    · rcases of_mem_joined S hc with hc | ⟨t, ht, hc⟩
      · exact hQ c hc
      · obtain ⟨v, hmem, rfl⟩ := List.mem_map.mp ht
        exact ih v hmem (hv.2 v hmem) c hc
    · exact hb _ (by decide)
  | obj members ih =>
    rw [all_obj] at hv
    intro c hc
    simp only [render_obj, List.cons_append, List.mem_cons, List.mem_append, List.not_mem_nil,
      or_false] at hc
    rcases hc with rfl | hc | rfl
    · exact hb _ (by decide)
    · rcases of_mem_joined S hc with hc | ⟨t, ht, hc⟩
      · exact hQ c hc
      · obtain ⟨x, hx, rfl⟩ := List.mem_map.mp ht
        rw [mem_written, List.mem_map] at hx
        obtain ⟨m, hm, rfl⟩ := hx
        rw [member, List.mem_append, List.mem_append] at hc
        rcases hc with (hc | hc) | hc
        · rcases of_mem_renderString S hc with hc | ⟨hk, hc⟩
          · exact hQ c hc
          · exact hv.1 m.1 (List.mem_map_of_mem hm) c hk hc
        · exact hQ c (printable_sep S ':' (by decide) c hc)
        · exact ih m hm (hv.2 m hm) c hc
    · exact hb _ (by decide)

/-- No text holds a zero code point. -/
theorem zero_notMem_render (v : Json F) : 0 ∉ render S v := by
  have hne : ∀ c : CodePoint, 32 ≤ c.val → c ≠ 0 := by
    rintro c hc rfl
    cases hc
  have hv : All (charsHere (· ≠ 0)) v := by
    refine all_of_forall (fun v => ?_) v
    cases v with
    | str s => exact fun c _ => hne c
    | bytes b => exact fun c hc => hne c (by rw [List.mem_singleton.mp hc]; decide)
    | obj members => exact fun k _ c _ => hne c
    | _ => trivial
  exact fun hz => forall_render S (fun c hc => hne c hc.1) hv 0 hz rfl

/-- A value whose text can be encoded holds no surrogate. -/
theorem scalar_of_render (hS : ∀ c, S.escapes c = false) {v : Json F}
    (h : ∀ c ∈ render S v, IsScalar c) : Scalar v := by
  have hstr : ∀ s : Str, (∀ c ∈ renderString S s, IsScalar c) → ∀ c ∈ s, IsScalar c :=
    fun s hs c hc => (mem_renderString S hS hc).elim isScalar_of_lt (hs c)
  induction v using Json.induction with
  | str s => exact hstr s h
  | bytes b => exact absurd (h 0xD800 (List.mem_singleton_self _)) (by decide)
  | arr items ih =>
    refine all_arr.mpr ⟨trivial, fun v hm => ih v hm fun c hc => h c ?_⟩
    rw [render_arr, List.cons_append, List.mem_cons, List.mem_append]
    exact .inr (.inl (mem_joined S (List.mem_map_of_mem hm) hc))
  | obj members ih =>
    have hmem : ∀ m ∈ members, ∀ c ∈ member S (m.1, render S m.2), IsScalar c := by
      intro m hm c hc
      apply h
      rw [render_obj, List.cons_append, List.mem_cons, List.mem_append]
      refine .inr (.inl (mem_joined S (List.mem_map_of_mem ((mem_written S).mpr ?_)) hc))
      exact List.mem_map_of_mem hm
    refine all_obj.mpr ⟨fun k hk => ?_, fun m hm => ih m hm fun c hc => hmem m hm c ?_⟩
    · obtain ⟨v, hm⟩ := Assoc.mem_keys.mp hk
      exact hstr k fun c hc => hmem _ hm c (by simp [member, hc])
    · simp [member, hc]
  | _ => trivial

/-- A text holds no surrogate, when no string in its value does. -/
theorem isScalar_render {v : Json F} (h : Scalar v) : ∀ c ∈ render S v, IsScalar c := by
  apply forall_render S fun c hc => isScalar_of_lt hc.2
  refine all_mono (fun v hv => ?_) h
  cases v with
  | str s => exact fun c hc _ => hv c hc
  | bytes b => exact hv.elim
  | obj members => exact fun k hk c hc _ => hv k hk c hc
  | _ => trivial

theorem scalar_render_iff (hS : ∀ c, S.escapes c = false) {v : Json F} :
    (∀ c ∈ render S v, IsScalar c) ↔ Scalar v :=
  ⟨scalar_of_render S hS, isScalar_render S⟩

end CodePoints

section Objects

variable {F : Type}

/-- An object with different keys. -/
theorem keyed_obj (keys : List String) {members : List (Str × Json F)}
    (hkeys : Assoc.keys members = keys.map lit) (hnodup : (keys.map lit).Nodup)
    (h : ∀ m ∈ members, Keyed m.2) : Keyed (.obj members) := by
  refine all_obj.mpr ⟨?_, h⟩
  change (Assoc.keys members).Nodup
  rwa [hkeys]

theorem scalar_intText (n : ℤ) : ∀ c ∈ intText n, IsScalar c := by
  intro c hc
  have h := sign_of_mem_intText c hc
  exact isScalar_of_lt (by omega)

theorem scalar_keys (keys : List String) (h : keys.all printableText = true) :
    ∀ k ∈ keys.map lit, ∀ c ∈ k, IsScalar c := by
  intro k hk c hc
  obtain ⟨s, hs, rfl⟩ := List.mem_map.mp hk
  exact isScalar_of_lt (printable_lit (List.all_eq_true.mp h s hs) c hc).2

/-- An object of ASCII keys. -/
theorem scalar_obj (keys : List String) {members : List (Str × Json F)}
    (hkeys : Assoc.keys members = keys.map lit)
    (hascii : keys.all printableText = true)
    (h : ∀ m ∈ members, Scalar m.2) : Scalar (.obj members) := by
  refine all_obj.mpr ⟨?_, h⟩
  change ∀ k ∈ Assoc.keys members, ∀ c ∈ k, IsScalar c
  rw [hkeys]
  exact scalar_keys _ hascii

end Objects

section Sorted

variable {F : Type}

mutual

/-- The members of every object sorted by key. -/
def normal : Json F → Json F
  | .null => .null
  | .bool b => .bool b
  | .int n => .int n
  | .float x => .float x
  | .str s => .str s
  | .bytes b => .bytes b
  | .arr items => .arr (normalItems items)
  | .obj members => .obj (sorted (normalMembers members))

def normalItems : List (Json F) → List (Json F)
  | [] => []
  | v :: l => normal v :: normalItems l

def normalMembers : List (Str × Json F) → List (Str × Json F)
  | [] => []
  | (k, v) :: l => (k, normal v) :: normalMembers l

end

/-- Equal up to the order of the members of objects. -/
def Same (v w : Json F) : Prop := normal v = normal w

theorem normalItems_eq (items : List (Json F)) : normalItems items = items.map normal := by
  induction items with
  | nil => rfl
  | cons v l ih => rw [normalItems, ih, List.map_cons]

theorem normalMembers_eq (members : List (Str × Json F)) :
    normalMembers members = members.map fun m => (m.1, normal m.2) := by
  induction members with
  | nil => rfl
  | cons m l ih => rw [normalMembers, ih, List.map_cons]

theorem sorted_map {α β : Type} (f : α → β) (members : List (Str × α)) :
    sorted (members.map fun m => (m.1, f m.2)) = (sorted members).map fun m => (m.1, f m.2) := by
  symm
  apply List.map_mergeSort
  exact fun _ _ _ _ => rfl

def Style.unsorted (S : Style) : Style := { S with sortKeys := false }

theorem joined_unsorted (S : Style) (ts : List Str) : joined S.unsorted ts = joined S ts := by
  induction ts using joined.induct with
  | case1 => rfl
  | case2 t => rfl
  | case3 t ts hts ih =>
    rw [joined, joined, ih]
    · rfl
    · exact hts
    · exact hts

variable [FloatText F] {S : Style}

/-- `sort_keys` writes the sorted value. -/
theorem render_sorted (hS : S.sortKeys = true) (v : Json F) :
    render S v = render S.unsorted (normal v) := by
  induction v using Json.induction with
  | arr items ih =>
    rw [normal, normalItems_eq, render_arr, render_arr, List.map_map, List.map_congr_left ih,
      joined_unsorted]
    rfl
  | obj members ih =>
    have hm : (members.map fun m => (m.1, render S m.2)) =
        members.map fun m => (m.1, render S.unsorted (normal m.2)) :=
      List.map_congr_left fun m hm => by rw [ih m hm]
    rw [normal, normalMembers_eq, render_obj, render_obj, sorted_map normal, List.map_map, hm,
      written, if_pos hS, sorted_map fun v => render S.unsorted (normal v), joined_unsorted]
    rfl
  | _ => rfl

/-- The order of members is not seen by a writer that sorts them. -/
theorem Same.render_eq (hS : S.sortKeys = true) {v w : Json F} (h : Same v w) :
    render S v = render S w := by
  rw [render_sorted hS, render_sorted hS, h]

end Sorted

end Json
