/-
# Assembling finds the meaning

The two passes of the assembler, compared with the meaning and the faults of a source.

* **Layout** (`addAll_spec`).  What is laid out always fits the statements that were gone through
  (`Laid`): the size is what they emit, a location is known at an offset exactly if it is marked
  there, and the code placed so far is theirs.  The pass stops at the first naming fault.
* **Jumps** (`settleAll_spec`).  With the locations of all statements known, each placed code
  settles to the instruction that its statement means.  The pass stops at the first jump fault.

Both are inductions over the statements that are left, with one lemma for a single statement each
(`add_spec`, `settle_spec`).  `link_spec` puts them together, and `assemble_asMeant` says it of
whole sources.
-/
import Ledboard.Proofs.Assembly.Meaning

namespace Ledboard.Assembly

variable {ss before rest : List Statement} {s : Statement}

/-! ## 1. Sizes and marks, statement by statement -/

theorem emittedSize_append (xs ys : List Statement) :
    emittedSize (xs ++ ys) = emittedSize xs + emittedSize ys := by
  induction xs with
  | nil => simp [emittedSize]
  | cons x xs ih =>
    simp only [emittedSize, List.cons_append, List.foldr_cons] at ih ⊢
    omega

theorem emittedSize_snoc (before : List Statement) (s : Statement) :
    emittedSize (before ++ [s]) = emittedSize before + s.action.width := by
  rw [emittedSize_append]
  rfl

theorem append_cons_eq_snoc (before rest : List Statement) (s : Statement) :
    before ++ s :: rest = (before ++ [s]) ++ rest := by simp

/-- A mark in one more statement is an earlier mark, or that statement behind all others. -/
theorem marked_snoc {name : String} {offset : Nat} :
    Marked (before ++ [s]) name offset ↔
      Marked before name offset ∨ (s.action = .here name ∧ emittedSize before = offset) := by
  constructor
  · rintro ⟨front, m, back, hsplit, hm, hoffset⟩
    rcases List.eq_nil_or_concat back with rfl | ⟨back, x, rfl⟩
    · obtain ⟨rfl, hsm⟩ := List.append_inj' hsplit rfl
      rw [List.cons.injEq] at hsm
      exact Or.inr ⟨hsm.1 ▸ hm, hoffset⟩
    · rw [List.concat_eq_append, ← List.cons_append, ← List.append_assoc] at hsplit
      obtain ⟨rfl, -⟩ := List.append_inj' hsplit rfl
      exact Or.inl ⟨front, m, back, rfl, hm, hoffset⟩
  · rintro (⟨front, m, back, rfl, hm, hoffset⟩ | ⟨hs, hoffset⟩)
    · exact ⟨front, m, back ++ [s], by simp, hm, hoffset⟩
    · exact ⟨before, s, [], rfl, hs, hoffset⟩

theorem unmarked_iff_not_marked {name : String} :
    Unmarked ss name ↔ ∀ offset, ¬ Marked ss name offset := by
  constructor
  · rintro h offset ⟨front, m, back, rfl, hm, -⟩
    exact h m (by simp) hm
  · intro h t ht hact
    obtain ⟨front, back, rfl⟩ := List.append_of_mem ht
    exact h _ ⟨front, t, back, rfl, hact, rfl⟩

/-! ## 2. Names -/

/-- The register that a statement gives a name. -/
def given? (name : String) (s : Statement) : Option UInt8 :=
  match s.action with
  | .nameRegister other register => if other = name then some register else none
  | _ => none

theorem given?_eq_some {name : String} {r : UInt8} :
    given? name s = some r ↔ s.action = .nameRegister name r := by
  unfold given?
  split
  · rename_i other register hs
    rw [hs, Action.nameRegister.injEq]
    split
    · rename_i h
      simp [h]
    · rename_i h
      simp [h]
  · rename_i hs
    simp only [reduceCtorEq, false_iff]
    exact hs name r

theorem lookup_noteName (known : List (String × UInt8)) (s : Statement) (name : String) :
    (noteName known s).lookup name = (known.lookup name).or (given? name s) := by
  unfold noteName given?
  cases s.action with
  | nameRegister other register =>
    by_cases h : other = name
    · subst h
      cases hknown : known.lookup other <;> simp [hknown]
    · have hne : (name == other) = false := beq_false_of_ne (Ne.symm h)
      cases hknown : known.lookup other <;> simp [h, hknown, List.lookup_cons, hne]
  | _ => simp

theorem lookup_foldl_noteName (known : List (String × UInt8)) (ss : List Statement)
    (name : String) :
    (ss.foldl noteName known).lookup name =
      (known.lookup name).or (ss.findSome? (given? name)) := by
  induction ss generalizing known with
  | nil => simp
  | cons s rest ih =>
    rw [List.foldl_cons, ih, lookup_noteName, Option.or_assoc, List.findSome?_cons]
    cases given? name s <;> rfl

theorem lookup_aliases (ss : List Statement) (name : String) :
    (aliases ss).lookup name = ss.findSome? (given? name) := by
  rw [aliases, lookup_foldl_noteName]
  rfl

/-- **A name is known as the register of the first directive that gives it one.** -/
theorem lookup_aliases_eq_some {name : String} {r : UInt8} :
    (aliases ss).lookup name = some r ↔ FirstNamed ss name r := by
  rw [lookup_aliases, List.findSome?_eq_some_iff]
  constructor
  · rintro ⟨front, t, back, rfl, ht, hfront⟩
    refine ⟨front, t, back, rfl, given?_eq_some.mp ht, ?_⟩
    intro u hu other hact
    have hnone := hfront u hu
    rw [given?_eq_some.mpr hact] at hnone
    exact absurd hnone (by simp)
  · rintro ⟨front, t, back, rfl, ht, hfront⟩
    refine ⟨front, t, back, rfl, given?_eq_some.mpr ht, ?_⟩
    intro u hu
    rw [Option.eq_none_iff_forall_ne_some]
    intro other hother
    exact hfront u hu other (given?_eq_some.mp hother)

/-- A name is unknown if no directive gives it a register. -/
theorem lookup_aliases_eq_none {name : String} :
    (aliases ss).lookup name = none ↔ Unnamed ss name := by
  rw [lookup_aliases, List.findSome?_eq_none_iff]
  constructor
  · intro h t ht r hact
    have hnone := h t ht
    rw [given?_eq_some.mpr hact] at hnone
    exact absurd hnone (by simp)
  · intro h t ht
    rw [Option.eq_none_iff_forall_ne_some]
    intro r hr
    exact h t ht r (given?_eq_some.mp hr)

/-- A reference is refused exactly if it is a name without a register. -/
theorem registerOf_spec (ss : List Statement) (position : Nat) (r : RegisterRef) :
    (∃ n, registerOf (aliases ss) position r = .ok n ∧ Denotes ss r n) ∨
      ∃ name, r = .name name ∧ Unnamed ss name ∧
        registerOf (aliases ss) position r = .error (.undefinedName position name) := by
  cases r with
  | number n => exact Or.inl ⟨n, rfl, .number n⟩
  | name name =>
    cases h : (aliases ss).lookup name with
    | some n =>
      exact Or.inl ⟨n, by simp only [registerOf, h], .name (lookup_aliases_eq_some.mp h)⟩
    | none =>
      exact Or.inr ⟨name, rfl, lookup_aliases_eq_none.mp h, by simp only [registerOf, h]⟩

/-! ## 3. Layout -/

/-- The code that a statement emits, with its name settled but not its jump. -/
inductive CodeOf (ss : List Statement) : Action → Option Code → Prop where
  | emit (i : Instruction) : CodeOf ss (.emit i) (some (.ready i))
  | push {r : RegisterRef} {n : UInt8} (h : Denotes ss r n) :
      CodeOf ss (.push r) (some (.ready (.pushReg n)))
  | pop {r : RegisterRef} {n : UInt8} (h : Denotes ss r n) :
      CodeOf ss (.pop r) (some (.ready (.popReg n)))
  | jump (target : String) : CodeOf ss (.jump target) (some (.jump target))
  | nameRegister (name : String) (r : UInt8) : CodeOf ss (.nameRegister name r) none
  | here (name : String) : CodeOf ss (.here name) none

/-- The placed code of the statements behind `before`. -/
inductive Planned (ss : List Statement) :
    List Statement → List Statement → List Placed → Prop where
  | nil (before : List Statement) : Planned ss before [] []
  | silent {before rest : List Statement} {s : Statement} {placed : List Placed}
      (h : CodeOf ss s.action none) (hrest : Planned ss (before ++ [s]) rest placed) :
      Planned ss before (s :: rest) placed
  | code {before rest : List Statement} {s : Statement} {placed : List Placed} {code : Code}
      (h : CodeOf ss s.action (some code)) (hrest : Planned ss (before ++ [s]) rest placed) :
      Planned ss before (s :: rest) (⟨s, emittedSize before, code⟩ :: placed)

/-- A table of locations that knows exactly the marks of some statements. -/
def Knows (ss : List Statement) (locations : Locations) : Prop :=
  ∀ name offset, locations.lookup name = some offset ↔ Marked ss name offset

variable {locations : Locations}

theorem Knows.unmarked_iff (hk : Knows ss locations) (name : String) :
    locations.lookup name = none ↔ Unmarked ss name := by
  rw [unmarked_iff_not_marked, Option.eq_none_iff_forall_ne_some]
  exact forall_congr' (fun offset => not_congr (hk name offset))

/-- A layout is that of the statements `before`, as far as size and locations go. -/
structure Laid (before : List Statement) (l : Layout) : Prop where
  size : l.size = emittedSize before
  locations : Knows before l.locations

theorem laid_empty : Laid [] .empty where
  size := rfl
  locations := by
    intro name offset
    constructor
    · intro h
      exact absurd h (by simp [Layout.empty])
    · rintro ⟨front, m, back, hsplit, -⟩
      exact absurd hsplit (by simp)

/-- A statement that marks nothing changes the size only. -/
theorem Laid.snoc {l l' : Layout} (hl : Laid before l) (hs : ∀ name, s.action ≠ .here name)
    (hsize : l'.size = l.size + s.action.width) (hloc : l'.locations = l.locations) :
    Laid (before ++ [s]) l' where
  size := by rw [hsize, hl.size, emittedSize_snoc]
  locations := by
    intro name offset
    rw [hloc, hl.locations, marked_snoc]
    exact ⟨Or.inl, fun h => h.resolve_right (fun hmark => hs name hmark.1)⟩

/-- The first mark of a name adds its location. -/
theorem Laid.mark {l : Layout} {name : String} (hl : Laid before l) (hs : s.action = .here name)
    (hnew : Unmarked before name) :
    Laid (before ++ [s]) { l with locations := (name, l.size) :: l.locations } where
  size := by
    rw [emittedSize_snoc, hs]
    exact hl.size
  locations := by
    intro other offset
    rw [marked_snoc, List.lookup_cons, hs, Action.here.injEq, ← hl.size]
    by_cases h : other = name
    · subst h
      have hnone := unmarked_iff_not_marked.mp hnew offset
      simp only [beq_self_eq_true, Option.some.injEq, true_and]
      exact ⟨Or.inr, fun h => h.resolve_left hnone⟩
    · have hne : (other == name) = false := beq_false_of_ne h
      simp only [hne, hl.locations other offset]
      exact ⟨Or.inl, fun hmark => hmark.resolve_right (fun hsame => h hsame.1.symm)⟩

/-- What laying out one more statement comes to. -/
inductive Added (ss before : List Statement) (s : Statement) (l : Layout) :
    Except AssemblyError Layout → Prop where
  | fault {e : AssemblyError} (h : NamingFault ss before s e) : Added ss before s l (.error e)
  | silent {l' : Layout} (hno : ∀ e, ¬ NamingFault ss before s e) (hl : Laid (before ++ [s]) l')
      (hcode : CodeOf ss s.action none) (hplaced : l'.placed = l.placed) :
      Added ss before s l (.ok l')
  | code {l' : Layout} {code : Code} (hno : ∀ e, ¬ NamingFault ss before s e)
      (hl : Laid (before ++ [s]) l') (hcode : CodeOf ss s.action (some code))
      (hplaced : l'.placed = l.placed.push ⟨s, emittedSize before, code⟩) :
      Added ss before s l (.ok l')

theorem added_emit {l : Layout} {code : Code} (hl : Laid before l)
    (hno : ∀ e, ¬ NamingFault ss before s e) (hcode : CodeOf ss s.action (some code)) :
    Added ss before s l (.ok (l.emit s code)) := by
  have hs : ∀ name, s.action ≠ .here name := by
    intro name h
    rw [h] at hcode
    cases hcode
  refine .code hno (hl.snoc hs rfl rfl) hcode ?_
  rw [← hl.size]
  rfl

/-- A naming fault needs a name without a register or a mark. -/
theorem no_namingFault {e : AssemblyError}
    (hname : ∀ name, s.action = .push (.name name) ∨ s.action = .pop (.name name) →
      ¬ Unnamed ss name)
    (hmark : ∀ name, s.action = .here name → Unmarked before name) :
    ¬ NamingFault ss before s e := by
  intro h
  cases h with
  | undefined hs hun => exact hname _ hs hun
  | repeated hs hun => exact hun (hmark _ hs)

theorem not_unnamed_of_denotes {name : String} {n : UInt8} (h : Denotes ss (.name name) n) :
    ¬ Unnamed ss name := by
  cases h with
  | name h =>
    rw [← lookup_aliases_eq_none, lookup_aliases_eq_some.mpr h]
    exact Option.some_ne_none n

/-- A statement that refers to a register stops at a name without one, and emits otherwise. -/
theorem added_reference {l : Layout} (hl : Laid before l) {r : RegisterRef}
    {make : UInt8 → Instruction}
    (href : ∀ name, s.action = .push (.name name) ∨ s.action = .pop (.name name) ↔ r = .name name)
    (hmark : ∀ name, s.action ≠ .here name)
    (hcode : ∀ n, Denotes ss r n → CodeOf ss s.action (some (.ready (make n)))) :
    Added ss before s l ((registerOf (aliases ss) s.operandPosition r).map
      (fun n => l.emit s (.ready (make n)))) := by
  rcases registerOf_spec ss s.operandPosition r with ⟨n, hok, hn⟩ | ⟨name, hr, hun, herror⟩
  · rw [hok]
    refine added_emit hl (fun e => no_namingFault ?_ ?_) (hcode n hn)
    · intro name hname
      exact not_unnamed_of_denotes ((href name).mp hname ▸ hn)
    · intro name hname
      exact absurd hname (hmark name)
  · rw [herror]
    exact .fault (.undefined ((href name).mpr hr) hun)

/-- **One statement.**  Laying it out stops at its naming fault, if it has one, and otherwise adds
what it emits. -/
theorem add_spec (ss : List Statement) (s : Statement) {l : Layout} (hl : Laid before l) :
    Added ss before s l (l.add (aliases ss) s) := by
  cases hact : s.action with
  | emit i =>
    simp only [Layout.add, hact]
    refine added_emit hl (fun e => no_namingFault ?_ ?_) (hact ▸ .emit i) <;> simp [hact]
  | push r =>
    simp only [Layout.add, hact]
    refine added_reference hl ?_ ?_ (fun n hn => hact ▸ .push hn) <;> simp [hact]
  | pop r =>
    simp only [Layout.add, hact]
    refine added_reference hl ?_ ?_ (fun n hn => hact ▸ .pop hn) <;> simp [hact]
  | jump target =>
    simp only [Layout.add, hact]
    refine added_emit hl (fun e => no_namingFault ?_ ?_) (hact ▸ .jump target) <;> simp [hact]
  | nameRegister name r =>
    simp only [Layout.add, hact]
    refine .silent (fun e => no_namingFault ?_ ?_) (hl.snoc ?_ ?_ rfl)
      (hact ▸ .nameRegister name r) rfl <;> simp [hact, Action.width]
  | here name =>
    simp only [Layout.add, hact]
    cases hknown : l.locations.lookup name with
    | some offset =>
      have hmarked := (hl.locations name offset).mp hknown
      exact .fault (.repeated hact (fun hun => unmarked_iff_not_marked.mp hun offset hmarked))
    | none =>
      have hnew := (hl.locations.unmarked_iff name).mp hknown
      refine .silent (fun e => no_namingFault ?_ ?_) (hl.mark hact hnew) (hact ▸ .here name) rfl
      · simp [hact]
      · intro other hother
        rw [hact, Action.here.injEq] at hother
        exact hother ▸ hnew

/-- **The layout pass.**  It stops at the first naming fault of the statements that are left, and
without one it lays all of them out. -/
theorem addAll_spec (ss rest : List Statement) {l : Layout} (hl : Laid before l) :
    (∃ e, l.addAll (aliases ss) rest = .error e ∧ FirstFault (NamingFault ss) before rest e) ∨
      ∃ l' placed, l.addAll (aliases ss) rest = .ok l' ∧
        Faultless (NamingFault ss) before rest ∧ Laid (before ++ rest) l' ∧
        l'.placed.toList = l.placed.toList ++ placed ∧ Planned ss before rest placed := by
  induction rest generalizing before l with
  | nil =>
    exact Or.inr ⟨l, [], rfl, faultless_nil _ _, by simpa using hl, by simp, .nil before⟩
  | cons s rest ih =>
    have hadd := add_spec ss s hl
    rw [Layout.addAll, append_cons_eq_snoc]
    generalize l.add (aliases ss) s = outcome at hadd
    cases hadd with
    | fault h => exact Or.inl ⟨_, rfl, .now h⟩
    | @silent l' hno hl' hcode hplaced =>
      rcases ih hl' with ⟨e, he, hfault⟩ | ⟨l'', placed, hok, hclean, hlaid, hlist, hplan⟩
      · exact Or.inl ⟨e, he, .later hno hfault⟩
      · rw [hplaced] at hlist
        exact Or.inr ⟨l'', placed, hok, faultless_cons hno hclean, hlaid, hlist,
          .silent hcode hplan⟩
    | @code l' code hno hl' hcode hplaced =>
      rcases ih hl' with ⟨e, he, hfault⟩ | ⟨l'', placed, hok, hclean, hlaid, hlist, hplan⟩
      · exact Or.inl ⟨e, he, .later hno hfault⟩
      · rw [hplaced, Array.toList_push, List.append_assoc] at hlist
        exact Or.inr ⟨l'', _, hok, faultless_cons hno hclean, hlaid, hlist, .code hcode hplan⟩

/-! ## 4. Jumps -/

theorem Knows.marked_unique (hk : Knows ss locations) {name : String} {a b : Nat}
    (ha : Marked ss name a) (hb : Marked ss name b) : a = b := by
  rw [← hk] at ha hb
  exact Option.some.inj (ha.symm.trans hb)

theorem reaches_iff (d : Int) : reaches d = true ↔ -32768 ≤ d ∧ d ≤ 32767 := by
  simp [reaches]

/-- What settling the code of one statement comes to. -/
inductive Settled (ss before : List Statement) (s : Statement) :
    Except AssemblyError Instruction → Prop where
  | fault {e : AssemblyError} (h : JumpFault ss before s e) : Settled ss before s (.error e)
  | code {i : Instruction} (hno : ∀ e, ¬ JumpFault ss before s e)
      (h : Means ss before s.action (some i)) : Settled ss before s (.ok i)

/-- **One jump.**  It settles to the displacement that leads from its own offset to its location,
or it has a fault. -/
theorem settle_jump (hk : Knows ss locations) {target : String} (hs : s.action = .jump target) :
    Settled ss before s (settle locations ⟨s, emittedSize before, .jump target⟩) := by
  cases hknown : locations.lookup target with
  | none =>
    simp only [settle, hknown]
    exact .fault (.undefined hs ((hk.unmarked_iff target).mp hknown))
  | some offset =>
    have hmarked : Marked ss target offset := (hk target offset).mp hknown
    have hsum : (emittedSize before : Int) + ((offset : Int) - emittedSize before) = offset := by
      omega
    simp only [settle, hknown]
    split
    · rename_i hreach
      have hbounds := (reaches_iff _).mp hreach
      refine .code ?_ ?_
      · intro e hfault
        cases hfault with
        | undefined hs' hun =>
          rw [hs, Action.jump.injEq] at hs'
          exact unmarked_iff_not_marked.mp hun offset (hs' ▸ hmarked)
        | tooFar hs' hmarked' hd hfar =>
          rw [hs, Action.jump.injEq] at hs'
          have hoffset := hk.marked_unique hmarked (hs' ▸ hmarked')
          exact hfar (by omega)
      · rw [hs]
        refine .jump hmarked ?_
        rw [Int16.toInt_ofInt_of_le (by omega) (by omega)]
        exact hsum
    · rename_i hreach
      exact .fault (.tooFar hs hmarked hsum (fun hbounds => hreach ((reaches_iff _).mpr hbounds)))

/-- **One piece of placed code.** -/
theorem settle_spec (before : List Statement) (hk : Knows ss locations) {code : Code}
    (hcode : CodeOf ss s.action (some code)) :
    Settled ss before s (settle locations ⟨s, emittedSize before, code⟩) := by
  have hno : ∀ action, s.action = action → (∀ target, action ≠ .jump target) →
      ∀ e, ¬ JumpFault ss before s e := by
    rintro action rfl hne e (⟨hs, -⟩ | ⟨hs, -⟩) <;> exact hne _ hs
  generalize hact : s.action = action at hcode
  cases hcode with
  | emit i => exact .code (hno _ hact (by simp)) (hact ▸ .emit i)
  | push h => exact .code (hno _ hact (by simp)) (hact ▸ .push h)
  | pop h => exact .code (hno _ hact (by simp)) (hact ▸ .pop h)
  | jump target => exact settle_jump hk hact

/-- A statement that emits nothing has no jump fault. -/
theorem no_jumpFault_of_silent (h : CodeOf ss s.action none) (e : AssemblyError) :
    ¬ JumpFault ss before s e := by
  intro hfault
  cases hfault with
  | undefined hs _ =>
    rw [hs] at h
    cases h
  | tooFar hs _ _ _ =>
    rw [hs] at h
    cases h

theorem means_of_silent (h : CodeOf ss s.action none) : Means ss before s.action none := by
  generalize s.action = action at h
  cases h with
  | nameRegister name r => exact .nameRegister name r
  | here name => exact .here name

/-- **The pass over the jumps.**  It stops at the first jump fault of the statements that are
left, and without one it gives each of them the instruction that it means. -/
theorem settleAll_spec (hk : Knows ss locations) {placed : List Placed}
    (hplan : Planned ss before rest placed) (done : Array Row) :
    (∃ e, settleAll locations done placed = .error e ∧
        FirstFault (JumpFault ss) before rest e) ∨
      ∃ found rows, settleAll locations done placed = .ok found ∧
        Faultless (JumpFault ss) before rest ∧ found.toList = done.toList ++ rows ∧
        Compiled ss before rest rows := by
  induction hplan generalizing done with
  | nil before => exact Or.inr ⟨done, [], rfl, faultless_nil _ _, by simp, .nil before⟩
  | @silent before rest s placed h hrest ih =>
    have hno : ∀ e, ¬ JumpFault ss before s e := no_jumpFault_of_silent h
    rcases ih done with ⟨e, he, hfault⟩ | ⟨found, rows, hok, hclean, hlist, hrows⟩
    · exact Or.inl ⟨e, he, .later hno hfault⟩
    · exact Or.inr ⟨found, rows, hok, faultless_cons hno hclean, hlist,
        .silent (means_of_silent h) hrows⟩
  | @code before rest s placed code h hrest ih =>
    have hsettled := settle_spec before hk h
    rw [settleAll]
    generalize settle locations ⟨s, emittedSize before, code⟩ = outcome at hsettled
    cases hsettled with
    | fault hfault => exact Or.inl ⟨_, rfl, .now hfault⟩
    | @code i hno hmeans =>
      rcases ih (done.push ⟨emittedSize before, i, s.position, s.length⟩) with
        ⟨e, he, hfault⟩ | ⟨found, rows, hok, hclean, hlist, hrows⟩
      · exact Or.inl ⟨e, he, .later hno hfault⟩
      · rw [Array.toList_push, List.append_assoc] at hlist
        exact Or.inr ⟨found, _, hok, faultless_cons hno hclean, hlist, .code hmeans hrows⟩

/-! ## 5. The whole -/

/-- A statement has one naming fault at most. -/
theorem namingFault_unique (before : List Statement) (s : Statement) (e e' : AssemblyError)
    (h : NamingFault ss before s e) (h' : NamingFault ss before s e') : e = e' := by
  cases h with
  | undefined hs _ =>
    cases h' with
    | undefined hs' _ => rcases hs with hs | hs <;> simp_all
    | repeated hs' _ => rcases hs with hs | hs <;> simp [hs'] at hs
  | repeated hs _ =>
    cases h' with
    | undefined hs' _ => rcases hs' with hs' | hs' <;> simp [hs] at hs'
    | repeated hs' _ =>
      rw [hs, Action.here.injEq] at hs'
      rw [hs']

/-- A jump has one fault at most, if no mark is repeated. -/
theorem jumpFault_unique (hk : Knows ss locations) (before : List Statement) (s : Statement)
    (e e' : AssemblyError) (h : JumpFault ss before s e) (h' : JumpFault ss before s e') :
    e = e' := by
  cases h with
  | undefined hs hun =>
    cases h' with
    | undefined hs' _ =>
      rw [hs, Action.jump.injEq] at hs'
      rw [hs']
    | tooFar hs' hmarked _ _ =>
      rw [hs, Action.jump.injEq] at hs'
      exact absurd (hs' ▸ hmarked) (unmarked_iff_not_marked.mp hun _)
  | @tooFar target offset d hs hmarked hd _ =>
    cases h' with
    | undefined hs' hun =>
      rw [hs, Action.jump.injEq] at hs'
      exact absurd (hs' ▸ hmarked) (unmarked_iff_not_marked.mp hun _)
    | @tooFar target' offset' d' hs' hmarked' hd' _ =>
      rw [hs, Action.jump.injEq] at hs'
      subst hs'
      have hoffset : offset = offset' := hk.marked_unique hmarked hmarked'
      have hsame : d = d' := by omega
      rw [hsame]

/-- The three ways in which linking can end. -/
inductive Linked (ss : List Statement) : Except AssemblyError Program → Prop where
  | naming {e : AssemblyError} (h : FirstFault (NamingFault ss) [] ss e) : Linked ss (.error e)
  | jump {e : AssemblyError} {locations : Locations} (hk : Knows ss locations)
      (hnames : Faultless (NamingFault ss) [] ss) (h : FirstFault (JumpFault ss) [] ss e) :
      Linked ss (.error e)
  | program {p : Program} (hnames : Faultless (NamingFault ss) [] ss)
      (hjumps : Faultless (JumpFault ss) [] ss) (h : Compiled ss [] ss p.rows) :
      Linked ss (.ok p)

/-- **Linking finds the meaning of the statements, or their first fault.** -/
theorem link_spec (ss : List Statement) : Linked ss (link ss) := by
  rcases addAll_spec ss ss laid_empty with
    ⟨e, he, hfault⟩ | ⟨l, placed, hok, hnames, hlaid, hlist, hplan⟩
  · simp only [link, he]
    exact .naming hfault
  · have hplaced : l.placed.toList = placed := by simpa [Layout.empty] using hlist
    have hk : Knows ss l.locations := hlaid.locations
    rcases settleAll_spec hk hplan #[] with
      ⟨e, he, hfault⟩ | ⟨found, rows, hrows, hjumps, hfound, hc⟩
    · simp only [link, hok, hplaced, bind, Except.bind, he]
      exact .jump hk hnames hfault
    · have hsame : found.toList = rows := by simpa using hfound
      simp only [link, hok, hplaced, bind, Except.bind, hrows]
      exact .program hnames hjumps (hsame ▸ hc)

/-- What has to come out when statements are assembled: the first naming fault; without one the
first jump fault; without any fault a program whose rows, and with them its bytes, are what the
statements mean. -/
structure AsMeant (ss : List Statement) (outcome : Except AssemblyError Program) : Prop where
  error_iff : ∀ e, outcome = .error e ↔ FirstFault (NamingFault ss) [] ss e ∨
    Faultless (NamingFault ss) [] ss ∧ FirstFault (JumpFault ss) [] ss e
  program : Faultless (NamingFault ss) [] ss → Faultless (JumpFault ss) [] ss →
    ∃ p, outcome = .ok p ∧ Compiled ss [] ss p.rows ∧
      p.bytes = p.rows.flatMap (fun row => row.instruction.encode)

theorem asMeant_of_linked {outcome : Except AssemblyError Program} (h : Linked ss outcome) :
    AsMeant ss outcome := by
  cases h with
  | @naming e hfault =>
    refine ⟨?_, fun hnames => absurd hfault (hnames e)⟩
    intro e'
    rw [Except.error.injEq]
    constructor
    · rintro rfl
      exact Or.inl hfault
    · rintro (hfault' | ⟨hnames, -⟩)
      · exact FirstFault.unique namingFault_unique hfault hfault'
      · exact absurd hfault (hnames e)
  | @jump e locations hk hnames hfault =>
    refine ⟨?_, fun _ hjumps => absurd hfault (hjumps e)⟩
    intro e'
    rw [Except.error.injEq]
    constructor
    · rintro rfl
      exact Or.inr ⟨hnames, hfault⟩
    · rintro (hfault' | ⟨-, hfault'⟩)
      · exact absurd hfault' (hnames e')
      · exact FirstFault.unique (jumpFault_unique hk) hfault hfault'
  | @program p hnames hjumps hrows =>
    refine ⟨?_, fun _ _ => ⟨p, rfl, hrows, rfl⟩⟩
    intro e
    constructor
    · intro h
      exact absurd h (by simp)
    · rintro (hfault | ⟨-, hfault⟩)
      · exact absurd hfault (hnames e)
      · exact absurd hfault (hjumps e)

/-- **Every source that parses is assembled as it is meant.** -/
theorem assemble_asMeant {source : String} {ss : List Statement} (h : parse source = .ok ss) :
    AsMeant ss (assemble source) := by
  have hlink : assemble source = link ss := by
    simp only [assemble, h, bind, Except.bind]
  rw [hlink]
  exact asMeant_of_linked (link_spec ss)

/-- A source with a jump in each direction and a name that is given twice, behind its use.  The jump
at 2 leads six bytes forward, and the one at 5 leads five bytes back. -/
theorem assemble_asMeant_of_jumps :
    let source := "#here top push x jl done jl top #here done pop i2 #name x i7 #name x i9"
    (∃ ss, parse source = .ok ss ∧ AsMeant ss (assemble source)) ∧
      (assemble source).toOption.map Program.bytes = some [1, 7, 6, 0, 6, 6, 255, 251, 3, 2] := by
  intro source
  have hparses : (parse source).toOption.isSome := by decide +kernel
  obtain ⟨ss, hss⟩ := Option.isSome_iff_exists.mp hparses
  have hparse := toOption_eq_some_iff.mp hss
  have hbytes : (assemble source).toOption.map Program.bytes =
      some [1, 7, 6, 0, 6, 6, 255, 251, 3, 2] := by decide +kernel
  exact ⟨⟨ss, hparse, assemble_asMeant hparse⟩, hbytes⟩

end Ledboard.Assembly
