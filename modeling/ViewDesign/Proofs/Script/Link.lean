import ViewDesign.Proofs.Script.Order
import ViewDesign.Proofs.Script.Scoping
import ViewDesign.Script.Execution

/-!
# Two heaps that correspond

One and the same code runs in two heaps that hold the same objects at different addresses, and much
else besides.  A `Link` says which addresses correspond and what they are used for; along a link,
values, scopes and objects correspond.

* `Link`, `Role`          pairs of addresses; frames of variables are kept apart from data, since
                          no value refers to a frame;
* `Value.Linked`, `Scope.Linked`, `Object.Linked`    what corresponds along a link;
* `Setting`               what is known of the rest of both heaps, and which changes keep it;
* `Corresponds`           the relation between the two heaps;
* `Agree`                 two computations keep the relation and give results that correspond, or
                          fail with the same fault.

The link grows while the code runs, so every fact about it is stated for all greater links.
-/

namespace ViewDesign.Script

/-! ## Links -/

/-- What an address is used for. -/
inductive Role where
  /-- an object that values may refer to -/
  | data
  /-- the variables of a function, with their names -/
  | frame (names : List String)

/-- Which addresses of two heaps correspond. -/
abbrev Link := Nat → Nat → Role → Prop

namespace Link

/-- The second link has all the pairs of the first. -/
def Le (L M : Link) : Prop := ∀ a b r, L a b r → M a b r

/-- The link with one more pair. -/
def add (L : Link) (a b : Nat) (r : Role) : Link :=
  fun x y s => L x y s ∨ (x = a ∧ y = b ∧ s = r)

theorem Le.refl (L : Link) : L.Le L := fun _ _ _ h => h

theorem Le.trans {L M N : Link} (h : L.Le M) (h' : M.Le N) : L.Le N :=
  fun a b r hl => h' a b r (h a b r hl)

theorem le_add (L : Link) (a b : Nat) (r : Role) : L.Le (L.add a b r) :=
  fun _ _ _ h => Or.inl h

theorem add_self (L : Link) (a b : Nat) (r : Role) : L.add a b r a b r :=
  Or.inr ⟨rfl, rfl, rfl⟩

end Link

/-- Whether a function may be at hand of code that names no global object. -/
def Builtin.shared : Builtin → Bool
  | .parse => false
  | .stringify => false
  | _ => true

/-- Whether an address is that of an object which is there from the start and may be at hand of such
code. -/
def Realm.Shared (a : Nat) : Prop := objectPrototype ≤ a ∧ a < size

/-- Values that correspond. -/
inductive Value.Linked (L : Link) : Value → Value → Prop where
  | primitive {v : Value} (h : v.isPrimitive = true) : Value.Linked L v v
  | object {a b : Nat} (h : L a b .data) : Value.Linked L (.object a) (.object b)

/-- Lists of values that correspond. -/
abbrev Values.Linked (L : Link) : List Value → List Value → Prop :=
  List.Forall₂ (Value.Linked L)

/-- The same names, with related values. -/
abbrev Entries.Related {α β : Type} (R : α → β → Prop) :
    List (String × α) → List (String × β) → Prop :=
  List.Forall₂ fun x y => x.1 = y.1 ∧ R x.2 y.2

/-- Members that correspond: the same names with values that correspond. -/
abbrev Members.Linked (L : Link) : List (String × Value) → List (String × Value) → Prop :=
  Entries.Related (Value.Linked L)

/-- Hidden members that correspond. -/
inductive Slot.Linked (L : Link) : Slot → Slot → Prop where
  | value {v w : Value} (h : Value.Linked L v w) : Slot.Linked L (.value v) (.value w)
  | locked {v w : Value} (h : Value.Linked L v w) : Slot.Linked L (.locked v) (.locked w)
  | ancestor : Slot.Linked L .ancestor .ancestor

/-- Addresses that correspond, or none on both sides. -/
abbrev References.Linked (L : Link) : Option Nat → Option Nat → Prop :=
  Option.Rel fun a b => L a b .data

/-- Scopes that correspond, and the names in them.  Both end in the global variables. -/
inductive Scope.Linked (L : Link) : List String → Scope → Scope → Prop where
  | globals : Scope.Linked L [] [Scope.globals] [Scope.globals]
  | cons {a b : Nat} {names bound : List String} {s t : Scope} (h : L a b (.frame names))
      (hs : Scope.Linked L bound s t) : Scope.Linked L (names ++ bound) (a :: s) (b :: t)

/-- Functions that correspond: the same code, closed over scopes that correspond. -/
structure Closure.Linked (plain : Bool) (L : Link) (c d : Closure) : Prop where
  parameters : c.parameters = d.parameters
  body : c.body = d.body
  closed : ∃ bound, Scope.Linked L bound c.scope d.scope ∧
    Stmt.allClosed (Stmt.localNames c.parameters c.body ++ bound) c.body = true
  plain : plain = true → Stmt.allPlain c.body = true

/-- Kinds that correspond. -/
inductive Kind.Linked (plain : Bool) (L : Link) : Kind → Kind → Prop where
  | plain : Kind.Linked plain L .plain .plain
  | array {xs ys : Array Value} (h : Values.Linked L xs.toList ys.toList) :
      Kind.Linked plain L (.array xs) (.array ys)
  | function {c d : Closure} (h : Closure.Linked plain L c d) :
      Kind.Linked plain L (.function c) (.function d)
  | native {b : Builtin} (h : b.shared = true) : Kind.Linked plain L (.native b) (.native b)
  | wrapped {v : Value} (h : v.isPrimitive = true) :
      Kind.Linked plain L (.wrapped v) (.wrapped v)

/-- An array has no member `toJSON`, and neither has what it inherits from as long as this is as it
was at the start. -/
def Object.Bare (o : Object) : Prop :=
  ∀ items, o.kind = .array items → o.kept? "toJSON" = none ∧
    (o.parent = some Realm.arrayPrototype ∨ o.parent = some Realm.objectPrototype)

/-- Objects that correspond.  Plain code gives no members to arrays. -/
structure Object.Linked (plain : Bool) (L : Link) (o p : Object) : Prop where
  kind : Kind.Linked plain L o.kind p.kind
  inherits : Option.Rel (References.Linked L) o.inherits p.inherits
  hidden : Entries.Related (Slot.Linked L) o.hidden p.hidden
  members : Members.Linked L o.members p.members
  bare : plain = true → o.Bare ∧ p.Bare

/-! ## Entries -/

section
variable {α β : Type} {R : α → β → Prop}

theorem get?_related {ms : List (String × α)} {ns : List (String × β)}
    (h : Entries.Related R ms ns) (x : String) :
    Option.Rel R (Entries.get? x ms) (Entries.get? x ns) := by
  rcases Entries.get?_of_forall₂ h (fun _ _ hxy => hxy.1) x with
    ⟨hv, hw⟩ | ⟨v, w, hv, hw, -, hvw⟩
  · rw [hv, hw]
    exact .none
  · rw [hv, hw]
    exact .some hvw

theorem put_related {ms : List (String × α)} {ns : List (String × β)}
    (h : Entries.Related R ms ns) (x : String) {v : α} {w : β} (hvw : R v w) :
    Entries.Related R (Entries.put x v ms) (Entries.put x w ns) := by
  induction h with
  | nil => exact .cons ⟨rfl, hvw⟩ .nil
  | @cons p q _ _ hxy hrest ih =>
    obtain ⟨k, v'⟩ := p
    obtain ⟨k', w'⟩ := q
    obtain ⟨rfl, hvw'⟩ : k = k' ∧ R v' w' := hxy
    rw [Entries.put, Entries.put]
    split
    · exact .cons ⟨rfl, hvw⟩ hrest
    · exact .cons ⟨rfl, hvw'⟩ ih

theorem made_related {es : List (String × α)} {fs : List (String × β)}
    (h : Entries.Related R es fs) :
    Entries.Related R (Entries.made es) (Entries.made fs) := by
  suffices hall : ∀ ms ns, Entries.Related R ms ns →
      Entries.Related R (es.foldl (fun done e => Entries.put e.1 e.2 done) ms)
        (fs.foldl (fun done e => Entries.put e.1 e.2 done) ns) from hall [] [] .nil
  induction h with
  | nil => exact fun _ _ hmn => hmn
  | cons hxy _ ih =>
    intro ms ns hmn
    rw [List.foldl_cons, List.foldl_cons, hxy.1]
    exact ih _ _ (put_related hmn _ hxy.2)

theorem names_related {ms : List (String × α)} {ns : List (String × β)}
    (h : Entries.Related R ms ns) : ms.map Prod.fst = ns.map Prod.fst := by
  induction h with
  | nil => rfl
  | cons hxy _ ih => rw [List.map_cons, List.map_cons, hxy.1, ih]

end

/-! ## Greater links -/

section
variable {L M : Link} {plain : Bool}

theorem Value.Linked.mono {v w : Value} (h : Value.Linked L v w) (hle : L.Le M) :
    Value.Linked M v w := by
  cases h with
  | primitive h => exact .primitive h
  | object h => exact .object (hle _ _ _ h)

theorem Slot.Linked.mono {s t : Slot} (h : Slot.Linked L s t) (hle : L.Le M) :
    Slot.Linked M s t := by
  cases h with
  | value h => exact .value (h.mono hle)
  | locked h => exact .locked (h.mono hle)
  | ancestor => exact .ancestor

theorem rel_imp {α β : Type} {R Q : α → β → Prop} {x : Option α} {y : Option β}
    (h : Option.Rel R x y) (hRQ : ∀ a b, R a b → Q a b) : Option.Rel Q x y := by
  cases h with
  | none => exact .none
  | some h => exact .some (hRQ _ _ h)

theorem References.Linked.mono {x y : Option Nat} (h : References.Linked L x y) (hle : L.Le M) :
    References.Linked M x y := rel_imp h fun _ _ hl => hle _ _ _ hl

theorem Values.Linked.mono {vs ws : List Value} (h : Values.Linked L vs ws) (hle : L.Le M) :
    Values.Linked M vs ws :=
  List.Forall₂.imp (fun _ _ hvw => hvw.mono hle) h

theorem Members.Linked.mono {ms ns : List (String × Value)} (h : Members.Linked L ms ns)
    (hle : L.Le M) : Members.Linked M ms ns :=
  List.Forall₂.imp (fun _ _ hvw => ⟨hvw.1, hvw.2.mono hle⟩) h

theorem Scope.Linked.mono {bound : List String} {s t : Scope} (h : Scope.Linked L bound s t)
    (hle : L.Le M) : Scope.Linked M bound s t := by
  induction h with
  | globals => exact .globals
  | cons h _ ih => exact .cons (hle _ _ _ h) ih

theorem Closure.Linked.mono {c d : Closure} (h : Closure.Linked plain L c d) (hle : L.Le M) :
    Closure.Linked plain M c d := by
  obtain ⟨bound, hs, hc⟩ := h.closed
  exact ⟨h.parameters, h.body, ⟨bound, hs.mono hle, hc⟩, h.plain⟩

theorem Kind.Linked.mono {k l : Kind} (h : Kind.Linked plain L k l) (hle : L.Le M) :
    Kind.Linked plain M k l := by
  cases h with
  | plain => exact .plain
  | array h => exact .array (Values.Linked.mono h hle)
  | function h => exact .function (h.mono hle)
  | native h => exact .native h
  | wrapped h => exact .wrapped h

/-- less is asked where code need not be plain -/
theorem Kind.Linked.weaken {q : Bool} {k l : Kind} (h : Kind.Linked plain L k l)
    (hq : q = true → plain = true) : Kind.Linked q L k l := by
  cases h with
  | plain => exact .plain
  | array h => exact .array h
  | function h => exact .function ⟨h.parameters, h.body, h.closed, fun e => h.plain (hq e)⟩
  | native h => exact .native h
  | wrapped h => exact .wrapped h

theorem Object.Linked.weaken {q : Bool} {o p : Object} (h : Object.Linked plain L o p)
    (hq : q = true → plain = true) : Object.Linked q L o p :=
  ⟨h.kind.weaken hq, h.inherits, h.hidden, h.members, fun e => h.bare (hq e)⟩

theorem Object.Linked.mono {o p : Object} (h : Object.Linked plain L o p) (hle : L.Le M) :
    Object.Linked plain M o p where
  kind := h.kind.mono hle
  inherits := rel_imp h.inherits fun _ _ hxy => References.Linked.mono hxy hle
  hidden := h.hidden.imp fun _ _ hst => ⟨hst.1, hst.2.mono hle⟩
  members := Members.Linked.mono h.members hle
  bare := h.bare

/-- a frame in which a variable is written -/
theorem Object.Linked.put {o p : Object} (h : Object.Linked plain L o p) (hkind : o.kind = .plain)
    (x : String) {v w : Value} (hvw : Value.Linked L v w) :
    Object.Linked plain L { o with members := Entries.put x v o.members }
      { p with members := Entries.put x w p.members } := by
  have hkind' : p.kind = .plain := by
    have hk := h.kind
    rw [hkind] at hk
    generalize p.kind = l at hk
    cases hk
    rfl
  refine ⟨h.kind, h.inherits, h.hidden, put_related h.members x hvw, fun _ => ⟨?_, ?_⟩⟩
  · intro items hi
    cases hkind.symm.trans hi
  · intro items hi
    cases hkind'.symm.trans hi

/-! ## New objects -/

theorem Object.bare_of_not_array {o : Object} (h : ∀ items, o.kind ≠ .array items) : o.Bare :=
  fun items hi => absurd hi (h items)

theorem members_linked {ms ns : List (String × Value)} (h : Members.Linked L ms ns) :
    Object.Linked plain L { members := ms } { members := ns } :=
  ⟨.plain, .none, .nil, h, fun _ => ⟨Object.bare_of_not_array (by simp),
    Object.bare_of_not_array (by simp)⟩⟩

theorem items_linked {xs ys : Array Value} (h : Values.Linked L xs.toList ys.toList) :
    Object.Linked plain L { kind := .array xs } { kind := .array ys } :=
  ⟨.array h, .none, .nil, .nil, fun _ => ⟨fun _ _ => ⟨rfl, Or.inl rfl⟩,
    fun _ _ => ⟨rfl, Or.inl rfl⟩⟩⟩

theorem ofClosure_linked (name : String) {c d : Closure} (h : Closure.Linked plain L c d) :
    Object.Linked plain L (.ofClosure name c) (.ofClosure name d) := by
  refine ⟨.function h, .none, ?_, .nil, fun _ =>
    ⟨Object.bare_of_not_array (by simp [Object.ofClosure]),
    Object.bare_of_not_array (by simp [Object.ofClosure])⟩⟩
  simp only [Object.ofClosure, h.parameters]
  exact .cons ⟨rfl, .locked (.primitive rfl)⟩ (.cons ⟨rfl, .locked (.primitive rfl)⟩ .nil)

/-! ## What linked values share -/

theorem Value.Linked.isPrimitive_eq {v w : Value} (h : Value.Linked L v w) :
    v.isPrimitive = w.isPrimitive := by
  cases h <;> rfl

theorem Value.Linked.truth_eq {v w : Value} (h : Value.Linked L v w) : v.truth = w.truth := by
  cases h <;> rfl

theorem Value.Linked.isNothing_eq {v w : Value} (h : Value.Linked L v w) :
    v.isNothing = w.isNothing := by
  cases h <;> rfl

theorem Value.Linked.length?_eq {v w : Value} (h : Value.Linked L v w) :
    v.length? = w.length? := by
  cases h <;> rfl

theorem Value.Linked.of_primitive {v w : Value} (h : Value.Linked L v w)
    (hp : v.isPrimitive = true) : v = w := by
  cases h with
  | primitive => rfl
  | object => exact absurd hp (by simp [Value.isPrimitive])

end

end ViewDesign.Script
