/-
# Header maps group what was added to them

Fields are added to a header map one after another, some of them by lines that are refused.  The map
keeps a history of them that is grouped by key: the keys in the order in which they came first, in
the spelling of that first time, and for each the values that were added under it, whatever the
spelling (`groups_history`).  A line that is refused leaves no trace.

* **Keys** (`firstSpellings_concat`).  A key that comes again, with its ASCII letters in any case,
  adds no spelling to the list; another one is added at the end.
* **Adding a field** (`represents_append`).  The entries are what the history says (`Represents`),
  and stay so when a field is added to both.
* **Lines** (`field?_eq_some_iff`, `field?_eq_none_iff`).  A line is taken apart at its first colon.
  It is refused if it has none, or if what stands before it is empty or holds white space.
-/
import Mathlib.Data.List.Induction
import Ledboard.Wire.Headers

namespace Ledboard.Wire

/-! ## 1. Runs up to an item -/

section

variable {α : Type} [BEq α] [LawfulBEq α] {a : α} {front : List α}

/-- A run without an item is not left before its end. -/
theorem takeWhile_append_of_notMem (h : a ∉ front) (rest : List α) :
    (front ++ rest).takeWhile (· != a) = front ++ rest.takeWhile (· != a) := by
  refine List.takeWhile_append_of_pos fun b hb => ?_
  rw [bne_iff_ne]
  rintro rfl
  exact h hb

/-- It ends where the item comes first, -/
theorem takeWhile_of_notMem (h : a ∉ front) (rest : List α) :
    (front ++ a :: rest).takeWhile (· != a) = front := by
  rw [takeWhile_append_of_notMem h, List.takeWhile_cons, bne_self_eq_false,
    if_neg Bool.false_ne_true, List.append_nil]

/-- or with the list. -/
theorem takeWhile_eq_self_of_notMem (h : a ∉ front) : front.takeWhile (· != a) = front := by
  have hall := takeWhile_append_of_notMem h []
  rwa [List.append_nil, List.takeWhile_nil, List.append_nil] at hall

end

/-! ## 2. Keys -/

theorem sameKey_iff {a b : String} : sameKey a b = true ↔ foldCase a = foldCase b := beq_iff_eq

theorem sameKey_comm (a b : String) : sameKey a b = sameKey b a := by
  rw [Bool.eq_iff_iff, sameKey_iff, sameKey_iff, eq_comm]

/-- Keys that are the same are the same as the same keys. -/
theorem sameKey_congr {a b : String} (h : sameKey a b = true) (c : String) :
    sameKey a c = sameKey b c := by
  rw [sameKey, sameKey, sameKey_iff.mp h]

namespace Headers

/-- The different ones of some keys, each where it comes first and in the spelling that it has
there. -/
def firstSpellings (keys : List String) : List String := keys.eraseDupsBy sameKey

/-- The values of the fields with a key, in their order. -/
def valuesUnder (key : String) (added : List (String × String)) : List String :=
  (added.filter (fun field => sameKey field.1 key)).map Prod.snd

variable {key value : String} {keys : List String} {added : List (String × String)}

theorem firstSpellings_cons (key : String) (keys : List String) :
    firstSpellings (key :: keys) =
      key :: firstSpellings (keys.filter fun other => sameKey other key = false) :=
  List.eraseDupsBy_cons

/-- **One more key** adds a spelling, unless the same key came before. -/
theorem firstSpellings_concat (keys : List String) (key : String) :
    firstSpellings (keys ++ [key]) =
      if keys.any (sameKey · key) then firstSpellings keys else firstSpellings keys ++ [key] := by
  -- What is left to look at behind the first key is shorter, so the induction is on the length.
  induction hlength : keys.length using Nat.strongRecOn generalizing keys with
  | ind length ih =>
    cases keys with
    | nil => rfl
    | cons first rest =>
      rw [List.cons_append, firstSpellings_cons, firstSpellings_cons, List.filter_append,
        List.any_cons]
      cases hsame : sameKey first key with
      | true =>
        have hlast : [key].filter (fun other => sameKey other first = false) = [] := by
          simp [sameKey_comm key first, hsame]
        rw [hlast, List.append_nil, Bool.true_or, if_pos rfl]
      | false =>
        have hlast : [key].filter (fun other => sameKey other first = false) = [key] := by
          simp [sameKey_comm key first, hsame]
        have hshorter : (rest.filter fun other => sameKey other first = false).length < length := by
          rw [← hlength, List.length_cons]
          exact Nat.lt_succ_of_le (List.length_filter_le _ _)
        have hany : (rest.filter fun other => sameKey other first = false).any (sameKey · key) =
            rest.any (sameKey · key) := by
          rw [List.any_filter]
          refine congrArg (List.any rest) (funext fun other => ?_)
          cases hother : sameKey other first with
          | true =>
            rw [sameKey_congr hother, hsame]
            rfl
          | false => rfl
        rw [hlast, ih _ hshorter _ rfl, hany, Bool.false_or]
        split <;> rfl

theorem mem_of_mem_firstSpellings {other : String} (h : other ∈ firstSpellings keys) :
    other ∈ keys := by
  induction keys using List.reverseRecOn with
  | nil => exact h
  | append_singleton keys key ih =>
    rw [firstSpellings_concat] at h
    rw [List.mem_append]
    split at h
    · exact Or.inl (ih h)
    · exact (List.mem_append.mp h).imp_left ih

/-- Each key is listed in some spelling. -/
theorem exists_mem_firstSpellings (h : ∃ other ∈ keys, sameKey other key = true) :
    ∃ other ∈ firstSpellings keys, sameKey other key = true := by
  induction keys using List.reverseRecOn with
  | nil => exact h
  | append_singleton keys last ih =>
    rw [firstSpellings_concat]
    obtain ⟨other, hmem, hsame⟩ := h
    split
    · rename_i hany
      rcases List.mem_append.mp hmem with hbefore | hlast
      · exact ih ⟨other, hbefore, hsame⟩
      · rw [List.mem_singleton] at hlast
        subst hlast
        obtain ⟨earlier, hearlier, hkey⟩ := List.any_eq_true.mp hany
        exact ih ⟨earlier, hearlier, (sameKey_congr hkey key).trans hsame⟩
    · rcases List.mem_append.mp hmem with hbefore | hlast
      · obtain ⟨listed, hlisted, hkey⟩ := ih ⟨other, hbefore, hsame⟩
        exact ⟨listed, List.mem_append_left _ hlisted, hkey⟩
      · exact ⟨other, List.mem_append_right _ hlast, hsame⟩

/-- No key is listed twice. -/
theorem pairwise_firstSpellings (keys : List String) :
    (firstSpellings keys).Pairwise (fun a b => sameKey a b = false) := by
  induction keys using List.reverseRecOn with
  | nil => exact .nil
  | append_singleton keys key ih =>
    rw [firstSpellings_concat]
    split
    · exact ih
    · rename_i hnew
      rw [List.pairwise_append]
      refine ⟨ih, List.pairwise_singleton _ _, fun other hother last hlast => ?_⟩
      rw [List.mem_singleton] at hlast
      subst hlast
      exact Bool.eq_false_iff.mpr fun hsame =>
        hnew (List.any_eq_true.mpr ⟨other, mem_of_mem_firstSpellings hother, hsame⟩)

theorem valuesUnder_concat (other key value : String) (added : List (String × String)) :
    valuesUnder other (added ++ [(key, value)]) =
      if sameKey key other then valuesUnder other added ++ [value]
      else valuesUnder other added := by
  rw [valuesUnder, List.filter_append, List.map_append]
  cases hsame : sameKey key other with
  | true => simp [hsame, valuesUnder]
  | false => simp [hsame, valuesUnder]

/-- The same key has the same values in every spelling. -/
theorem valuesUnder_congr {other : String} (h : sameKey key other = true)
    (added : List (String × String)) : valuesUnder key added = valuesUnder other added := by
  have hkeys : ∀ field : String × String, sameKey field.1 key = sameKey field.1 other := by
    intro field
    rw [sameKey_comm field.1, sameKey_comm field.1, sameKey_congr h]
  simp only [valuesUnder, hkeys]

/-- There are no values only where there is no such key. -/
theorem valuesUnder_eq_nil_iff :
    valuesUnder key added = [] ↔ ∀ field ∈ added, sameKey field.1 key = false := by
  simp [valuesUnder]

/-! ## 3. Adding a field -/

/-- The entries of a map, with their values as lists. -/
def shown (entries : List (String × Array String)) : List (String × List String) :=
  entries.map (fun entry => (entry.1, entry.2.toList))

variable {entries : List (String × Array String)} {h : Headers}

/-- A key that has no entry gets one at the end. -/
theorem addTo_of_missing (hmissing : ∀ entry ∈ entries, sameKey entry.1 key = false) :
    addTo key value entries = entries ++ [(key, #[value])] := by
  induction entries with
  | nil => rfl
  | cons entry rest ih =>
    obtain ⟨hfirst, hrest⟩ := List.forall_mem_cons.mp hmissing
    rw [addTo, hfirst, if_neg Bool.false_ne_true, ih hrest]
    rfl

/-- A key that has an entry gets one more value there, and all else stays. -/
theorem shown_addTo_of_found (hdistinct : entries.Pairwise (fun a b => sameKey a.1 b.1 = false))
    (hfound : ∃ entry ∈ entries, sameKey entry.1 key = true) :
    shown (addTo key value entries) = (shown entries).map (fun entry =>
      if sameKey entry.1 key then (entry.1, entry.2 ++ [value]) else entry) := by
  induction entries with
  | nil => exact absurd hfound (by simp)
  | cons entry rest ih =>
    obtain ⟨hfirst, hrest⟩ := List.pairwise_cons.mp hdistinct
    obtain ⟨k, values⟩ := entry
    have hshown : shown ((k, values) :: rest) = (k, values.toList) :: shown rest := rfl
    rw [addTo, hshown, List.map_cons]
    cases hsame : sameKey k key with
    | true =>
      have hothers : ∀ other ∈ shown rest, sameKey other.1 key = false := by
        intro other hother
        obtain ⟨entry', hentry', rfl⟩ := List.mem_map.mp hother
        rw [sameKey_comm, ← sameKey_congr hsame]
        exact hfirst entry' hentry'
      have hkept : (shown rest).map (fun entry =>
          if sameKey entry.1 key then (entry.1, entry.2 ++ [value]) else entry) = shown rest := by
        refine (List.map_congr_left fun other hother => ?_).trans (List.map_id' _)
        rw [hothers other hother, if_neg Bool.false_ne_true]
      rw [if_pos rfl, if_pos rfl, hkept, ← Array.toList_push]
      rfl
    | false =>
      have hlater : ∃ entry ∈ rest, sameKey entry.1 key = true := by
        obtain ⟨other, hmem, hother⟩ := hfound
        rcases List.mem_cons.mp hmem with rfl | hmem
        · exact absurd (hsame.symm.trans hother) Bool.false_ne_true
        · exact ⟨other, hmem, hother⟩
      rw [if_neg Bool.false_ne_true, if_neg Bool.false_ne_true, ← ih hrest hlater]
      rfl

/-- How many values the entries have in all. -/
def valueCount (entries : List (String × Array String)) : Nat :=
  (entries.flatMap fun entry => entry.2.toList).length

theorem valueCount_cons (entry : String × Array String) (entries : List (String × Array String)) :
    valueCount (entry :: entries) = entry.2.size + valueCount entries := by
  rw [valueCount, List.flatMap_cons, List.length_append, Array.length_toList, valueCount]

/-- A field adds one value, to an entry or with one. -/
theorem valueCount_addTo (key value : String) (entries : List (String × Array String)) :
    valueCount (addTo key value entries) = valueCount entries + 1 := by
  induction entries with
  | nil => rfl
  | cons entry rest ih =>
    rw [addTo]
    split
    · rw [valueCount_cons, valueCount_cons, Array.size_push, Nat.add_right_comm]
    · rw [valueCount_cons, valueCount_cons, ih, Nat.add_assoc]

/-- A map whose entries are the fields that were added to it, grouped by key. -/
def Represents (added : List (String × String)) (h : Headers) : Prop :=
  shown h.entries =
    (firstSpellings (added.map Prod.fst)).map (fun key => (key, valuesUnder key added))

/-- The keys of a map are those of its history. -/
theorem Represents.spellings (hrep : Represents added h) :
    h.entries.map Prod.fst = firstSpellings (added.map Prod.fst) := by
  have hkeys := congrArg (List.map Prod.fst) hrep
  rw [shown, List.map_map, List.map_map] at hkeys
  exact hkeys.trans (List.map_id' _)

theorem Represents.distinct (hrep : Represents added h) :
    h.entries.Pairwise (fun a b => sameKey a.1 b.1 = false) := by
  have hpairwise := pairwise_firstSpellings (added.map Prod.fst)
  rwa [← hrep.spellings, List.pairwise_map] at hpairwise

theorem Represents.values (hrep : Represents added h) {entry : String × Array String}
    (hentry : entry ∈ h.entries) : entry.2.toList = valuesUnder entry.1 added := by
  have hmem : (entry.1, entry.2.toList) ∈ shown h.entries := List.mem_map_of_mem hentry
  rw [hrep] at hmem
  obtain ⟨key, -, hkey⟩ := List.mem_map.mp hmem
  obtain ⟨rfl, hvalues⟩ := Prod.mk.inj hkey
  exact hvalues.symm

/-- A key has an entry if a field was added under it. -/
theorem Represents.exists_entry_iff (hrep : Represents added h) :
    (∃ entry ∈ h.entries, sameKey entry.1 key = true) ↔
      ∃ field ∈ added, sameKey field.1 key = true := by
  constructor
  · rintro ⟨entry, hentry, hsame⟩
    have hmem : entry.1 ∈ firstSpellings (added.map Prod.fst) :=
      hrep.spellings ▸ List.mem_map_of_mem hentry
    obtain ⟨field, hfield, hkey⟩ := List.mem_map.mp (mem_of_mem_firstSpellings hmem)
    exact ⟨field, hfield, hkey ▸ hsame⟩
  · rintro ⟨field, hfield, hsame⟩
    obtain ⟨other, hother, hkey⟩ :=
      exists_mem_firstSpellings ⟨field.1, List.mem_map_of_mem hfield, hsame⟩
    rw [← hrep.spellings] at hother
    obtain ⟨entry, hentry, rfl⟩ := List.mem_map.mp hother
    exact ⟨entry, hentry, hkey⟩

/-- **Adding a field to the map is adding it to the history.** -/
theorem represents_append (hrep : Represents added h) (key value : String) :
    Represents (added ++ [(key, value)]) (h.append key value) := by
  have hany : (added.map Prod.fst).any (sameKey · key) = true ↔
      ∃ entry ∈ h.entries, sameKey entry.1 key = true := by
    rw [hrep.exists_entry_iff, List.any_map, List.any_eq_true]
    rfl
  rw [Represents, List.map_append, List.map_singleton, firstSpellings_concat]
  simp only [valuesUnder_concat]
  by_cases hfound : ∃ entry ∈ h.entries, sameKey entry.1 key = true
  · rw [if_pos (hany.mpr hfound)]
    refine (shown_addTo_of_found hrep.distinct hfound).trans ?_
    rw [hrep, List.map_map]
    refine List.map_congr_left fun other _ => ?_
    simp only [Function.comp, sameKey_comm key other]
    split <;> rfl
  · have hmissing : ∀ entry ∈ h.entries, sameKey entry.1 key = false := fun entry hentry =>
      Bool.eq_false_iff.mpr fun hsame => hfound ⟨entry, hentry, hsame⟩
    have hadded : ∀ field ∈ added, sameKey field.1 key = false := fun field hfield =>
      Bool.eq_false_iff.mpr fun hsame =>
        hfound (hrep.exists_entry_iff.mpr ⟨field, hfield, hsame⟩)
    have hself : sameKey key key = true := sameKey_iff.mpr rfl
    rw [if_neg (fun htrue => hfound (hany.mp htrue)), append, addTo_of_missing hmissing, shown,
      List.map_append, List.map_append, List.map_singleton, List.map_singleton,
      valuesUnder_eq_nil_iff.mpr hadded, if_pos hself]
    refine congrArg (· ++ _) (hrep.trans (List.map_congr_left fun other hother => ?_))
    obtain ⟨field, hfield, rfl⟩ := List.mem_map.mp (mem_of_mem_firstSpellings hother)
    rw [sameKey_comm, hadded field hfield, if_neg Bool.false_ne_true]

/-! ## 4. Lines -/

/-- A line that is a field: its key stands before the first colon, and its value is what stands
behind it without the white space at its ends. -/
structure FieldLine (line : List Char) (key value : String) : Prop where
  parts : ∃ rest, line = key.toList ++ ':' :: rest ∧ Text.Trimmed rest value.toList
  colonless : ':' ∉ key.toList
  nonempty : key ≠ ""
  blankless : ∀ c ∈ key.toList, Text.isBlank c = false

/-- A line that is no field: it has no colon, or before the first one stands nothing, or something
with white space in it. -/
inductive Refused : List Char → Prop where
  | colonless {line : List Char} (h : ':' ∉ line) : Refused line
  | keyless (rest : List Char) : Refused (':' :: rest)
  | blank {front : List Char} (rest : List Char) (hfront : ':' ∉ front) {c : Char} (hc : c ∈ front)
      (hblank : Text.isBlank c = true) : Refused (front ++ ':' :: rest)

variable {line : List Char}

/-- A line is taken apart at its first colon. -/
theorem field?_of_colon {front : List Char} (hfront : ':' ∉ front) (rest : List Char) :
    field? (front ++ ':' :: rest) =
      if front.isEmpty || front.any Text.isBlank then none
      else some (String.ofList front, String.ofList (Text.trim rest)) := by
  simp only [field?, takeWhile_of_notMem hfront, List.drop_left]

theorem field?_of_colonless (h : ':' ∉ line) : field? line = none := by
  simp only [field?, takeWhile_eq_self_of_notMem h, List.drop_length]

theorem field?_of_refused (h : Refused line) : field? line = none := by
  cases h with
  | colonless hcolon => exact field?_of_colonless hcolon
  | keyless rest => exact field?_of_colon List.not_mem_nil rest
  | blank rest hfront hc hblank =>
    rw [field?_of_colon hfront, List.any_eq_true.mpr ⟨_, hc, hblank⟩, Bool.or_true, if_pos rfl]

theorem field?_of_fieldLine (h : FieldLine line key value) : field? line = some (key, value) := by
  obtain ⟨⟨rest, rfl, htrimmed⟩, hcolon, hnonempty, hblank⟩ := h
  have hempty : key.toList.isEmpty = false := by
    rw [List.isEmpty_eq_false_iff]
    exact fun hnil => hnonempty (String.toList_eq_nil_iff.mp hnil)
  have hany : key.toList.any Text.isBlank = false := by
    rw [List.any_eq_false]
    exact fun c hc => Bool.eq_false_iff.mp (hblank c hc)
  rw [field?_of_colon hcolon, hempty, hany, Text.trim_eq_iff.mpr htrimmed, String.ofList_toList,
    String.ofList_toList]
  rfl

/-- Every line is a field or refused. -/
theorem refused_or_fieldLine (line : List Char) :
    Refused line ∨ ∃ key value, FieldLine line key value := by
  by_cases hcolon : ':' ∈ line
  · obtain ⟨front, rest, rfl, hfront⟩ := List.eq_append_cons_of_mem hcolon
    by_cases hblank : ∃ c ∈ front, Text.isBlank c = true
    · obtain ⟨c, hc, hblank⟩ := hblank
      exact Or.inl (.blank rest hfront hc hblank)
    · cases hempty : front with
      | nil => exact Or.inl (.keyless rest)
      | cons c cs =>
        rw [← hempty]
        refine Or.inr
          ⟨String.ofList front, String.ofList (Text.trim rest), ⟨rest, ?_, ?_⟩, ?_, ?_, ?_⟩
        · rw [String.toList_ofList]
        · rw [String.toList_ofList]
          exact Text.trim_eq_iff.mp rfl
        · rwa [String.toList_ofList]
        · intro hnone
          have hlist := congrArg String.toList hnone
          rw [String.toList_ofList, hempty] at hlist
          exact absurd hlist (List.cons_ne_nil c cs)
        · rw [String.toList_ofList]
          exact fun c hc => Bool.eq_false_iff.mpr fun htrue => hblank ⟨c, hc, htrue⟩
  · exact Or.inl (.colonless hcolon)

theorem field?_eq_none_iff : field? line = none ↔ Refused line := by
  constructor
  · intro hnone
    rcases refused_or_fieldLine line with hrefused | ⟨key, value, hfield⟩
    · exact hrefused
    · exact absurd (hnone.symm.trans (field?_of_fieldLine hfield)) (by simp)
  · exact field?_of_refused

theorem field?_eq_some_iff : field? line = some (key, value) ↔ FieldLine line key value := by
  constructor
  · intro hsome
    rcases refused_or_fieldLine line with hrefused | ⟨key', value', hfield⟩
    · exact absurd (hsome.symm.trans (field?_of_refused hrefused)) (by simp)
    · have hsame := hsome.symm.trans (field?_of_fieldLine hfield)
      obtain ⟨rfl, rfl⟩ := Prod.mk.inj (Option.some.inj hsame)
      exact hfield
  · exact field?_of_fieldLine

/-! ## 5. The whole -/

/-- What is done to a header map. -/
inductive Call where
  | append (key value : String)
  | line (text : String)
  deriving DecidableEq, Repr

/-- The field that a call adds, if it adds one. -/
def Call.field? : Call → Option (String × String)
  | .append key value => some (key, value)
  | .line text => Headers.field? text.toList

/-- Carries a call out: whether it succeeds, and the map afterwards. -/
def call (h : Headers) : Call → Except Fault Unit × Headers
  | .append key value => (.ok (), h.append key value)
  | .line text =>
    match h.addLine text with
    | .ok next => (.ok (), next)
    | .error fault => (.error fault, h)

/-- Carries out calls, one after another. -/
def callAll (h : Headers) : List Call → List (Except Fault Unit) × Headers
  | [] => ([], h)
  | c :: rest => ((h.call c).1 :: ((h.call c).2.callAll rest).1, ((h.call c).2.callAll rest).2)

/-- **A call adds its field and succeeds**, or fails and changes nothing. -/
theorem call_eq (h : Headers) (c : Call) :
    h.call c = match c.field? with
      | some (key, value) => (.ok (), h.append key value)
      | none => (.error (.malformedHeader (match c with
          | .append key _ => key
          | .line text => text)), h) := by
  cases c with
  | append key value => rfl
  | line text =>
    simp only [call, addLine, Call.field?]
    cases field? text.toList with
    | none => rfl
    | some field => rfl

/-- What a map says about the fields that were added to it. -/
structure Groups (added : List (String × String)) (h : Headers) : Prop where
  /-- no two entries have the same key -/
  distinct : h.entries.Pairwise (fun a b => sameKey a.1 b.1 = false)
  /-- the keys stand in the order of their first occurrence, and as they were spelt there -/
  keys : h.entries.map Prod.fst = firstSpellings (added.map Prod.fst)
  /-- each with all the values that were added under it, of which there is one at least -/
  values : ∀ entry ∈ h.entries,
    entry.2.toList = valuesUnder entry.1 added ∧ entry.2.toList ≠ []
  /-- they are found under every spelling of the key -/
  found : ∀ key, (∃ field ∈ added, sameKey field.1 key = true) →
    h.get? key = some (valuesUnder key added)
  /-- and nothing is found where nothing was added -/
  missing : ∀ key, h.get? key = none ↔ ∀ field ∈ added, sameKey field.1 key = false

theorem get?_of_represents (hrep : Represents added h)
    (hfield : ∃ field ∈ added, sameKey field.1 key = true) :
    h.get? key = some (valuesUnder key added) := by
  obtain ⟨entry, hentry, hsame⟩ := hrep.exists_entry_iff.mpr hfield
  rw [get?]
  cases hfind : h.entries.find? (fun entry => sameKey entry.1 key) with
  | none => exact absurd hsame (List.find?_eq_none.mp hfind entry hentry)
  | some found =>
    have hkey : sameKey found.1 key = true :=
      List.find?_some (p := fun entry : String × Array String => sameKey entry.1 key) hfind
    rw [Option.map_some, hrep.values (List.mem_of_find?_eq_some hfind), valuesUnder_congr hkey]

theorem groups_of_represents (hrep : Represents added h) : Groups added h where
  distinct := hrep.distinct
  keys := hrep.spellings
  values := by
    intro entry hentry
    refine ⟨hrep.values hentry, ?_⟩
    rw [hrep.values hentry, ne_eq, valuesUnder_eq_nil_iff]
    intro hnone
    have hself : sameKey entry.1 entry.1 = true := sameKey_iff.mpr rfl
    obtain ⟨field, hfield, hsame⟩ := hrep.exists_entry_iff.mp ⟨entry, hentry, hself⟩
    exact absurd hsame (Bool.eq_false_iff.mp (hnone field hfield))
  found := fun key => get?_of_represents hrep
  missing := by
    intro key
    rw [get?, Option.map_eq_none_iff, List.find?_eq_none]
    constructor
    · intro hnone field hfield
      refine Bool.eq_false_iff.mpr fun hsame => ?_
      obtain ⟨entry, hentry, hkey⟩ := hrep.exists_entry_iff.mpr ⟨field, hfield, hsame⟩
      exact hnone entry hentry hkey
    · intro hnone entry hentry hkey
      obtain ⟨field, hfield, hsame⟩ := hrep.exists_entry_iff.mp ⟨entry, hentry, hkey⟩
      exact absurd hsame (Bool.eq_false_iff.mp (hnone field hfield))

/-- **Calls keep what the history says**, from any history on. -/
theorem represents_callAll (hrep : Represents added h)
    (htotal : valueCount h.entries = added.length)
    (calls : List Call) :
    Represents (added ++ calls.filterMap Call.field?) (h.callAll calls).2 ∧
      valueCount (h.callAll calls).2.entries =
        (added ++ calls.filterMap Call.field?).length ∧
      (h.callAll calls).1.countP Except.isOk = (calls.filterMap Call.field?).length := by
  induction calls generalizing h added with
  | nil => exact ⟨by rwa [List.filterMap_nil, List.append_nil], by
      rwa [List.filterMap_nil, List.append_nil], rfl⟩
  | cons c rest ih =>
    have hcall := call_eq h c
    rw [callAll, List.countP_cons]
    cases hfield : c.field? with
    | none =>
      rw [hfield] at hcall
      rw [List.filterMap_cons_none hfield, hcall]
      obtain ⟨hhistory, hlength, hcount⟩ := ih hrep htotal
      exact ⟨hhistory, hlength, hcount⟩
    | some field =>
      rw [hfield] at hcall
      rw [List.filterMap_cons_some hfield, hcall, List.append_cons]
      have hmore : valueCount (h.append field.1 field.2).entries = (added ++ [field]).length := by
        rw [append, valueCount_addTo, htotal, List.length_append, List.length_singleton]
      obtain ⟨hhistory, hlength, hcount⟩ := ih (represents_append hrep field.1 field.2) hmore
      exact ⟨hhistory, hlength, congrArg (· + 1) hcount⟩

/-- **A header map groups its history.**  After any calls on an empty map, whatever they are:

* the entries are the fields that the successful calls added, grouped by key;
* there are as many values as there were successful calls;
* a line fails exactly if it has no colon, or nothing or white space before the first one, and then
  it leaves the map as it was, whatever is in it; every other line adds what stands before the first
  colon with what stands behind it, trimmed. -/
theorem groups_history (calls : List Call) :
    let outcome := empty.callAll calls
    let added := calls.filterMap Call.field?
    Groups added outcome.2 ∧
      valueCount outcome.2.entries = outcome.1.countP Except.isOk ∧
      ∀ text : String,
        (Refused text.toList ↔ (Call.line text).field? = none) ∧
        (∀ key value, FieldLine text.toList key value ↔
          (Call.line text).field? = some (key, value)) ∧
        (∀ h : Headers, Refused text.toList →
          h.call (.line text) = (.error (.malformedHeader text), h)) ∧
        ∀ (h : Headers) (key value : String), FieldLine text.toList key value →
          h.call (.line text) = (.ok (), h.append key value) := by
  intro outcome added
  have hempty : Represents [] empty := rfl
  obtain ⟨hrep, htotal, hcount⟩ := represents_callAll hempty rfl calls
  refine ⟨groups_of_represents hrep, htotal.trans hcount.symm, fun text => ?_⟩
  refine ⟨field?_eq_none_iff.symm, fun key value => field?_eq_some_iff.symm, ?_, ?_⟩
  · intro h hrefused
    have hfield : (Call.line text).field? = none := field?_of_refused hrefused
    rw [call_eq, hfield]
  · intro h key value hline
    have hfield : (Call.line text).field? = some (key, value) := field?_of_fieldLine hline
    rw [call_eq, hfield]

/-- A key in two spellings, with a colon in one of its values, and two lines that are refused. -/
theorem groups_history_of_respelt_key :
    let calls : List Call :=
      [.append "Host" "a", .line "X Y: 1", .line "hOST: b:c ", .append "accept" "", .line ":d"]
    (empty.callAll calls).2.entries.map Prod.fst = ["Host", "accept"] ∧
      (empty.callAll calls).2.get? "HOST" = some ["a", "b:c"] ∧
      valueCount (empty.callAll calls).2.entries = 3 ∧
      (empty.append "accept" "").call (.line "X Y: 1") =
        (.error (.malformedHeader "X Y: 1"), empty.append "accept" "") ∧
      (empty.append "accept" "").call (.line "hOST: b:c ") =
        (.ok (), (empty.append "accept" "").append "hOST" "b:c") := by
  intro calls
  obtain ⟨hgroups, htotal, hlines⟩ := groups_history calls
  have hblank : ' ' ∈ ['X', ' ', 'Y'] := by decide
  have hspace : Refused "X Y: 1".toList := .blank [' ', '1'] (by decide) hblank rfl
  have hblanks : ∀ c ∈ [' '], Text.isBlank c = true := List.forall_mem_singleton.mpr rfl
  have htrimmed : Text.Trimmed [' ', 'b', ':', 'c', ' '] "b:c".toList :=
    ⟨⟨[' '], [' '], rfl, hblanks, hblanks⟩, by rintro _ ⟨⟩; rfl, by rintro _ ⟨⟩; rfl⟩
  have hhost : FieldLine "hOST: b:c ".toList "hOST" "b:c" :=
    ⟨⟨_, rfl, htrimmed⟩, by decide, by decide, by simp [Text.isBlank]⟩
  have hget : (empty.callAll calls).2.get? "HOST" = _ :=
    hgroups.found "HOST" ⟨("Host", "a"), List.mem_cons_self, rfl⟩
  exact ⟨hgroups.keys, hget, htotal, (hlines "X Y: 1").2.2.1 _ hspace,
    (hlines "hOST: b:c ").2.2.2 _ _ _ hhost⟩

end Headers

end Ledboard.Wire
