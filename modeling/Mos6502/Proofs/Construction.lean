import Mos6502.IR.Build
import Mos6502.Proofs.SlotForm

/-!
# Modules under construction

A module is put together call by call: calls add constants and functions, append blocks to a
function, and append instructions to a block. Everything is named by an index that its call hands
out, and by a name. Here is what becomes of indices and names, whatever the calls are and in
whatever order they come.

Calls are data, so that a run is a list of them. `Function.call?_cases` and `Module.call?_cases` say
all that one call can do, and what holds of a run follows from that by induction: things stay where
they are and only grow (`Function.Grows`, `Module.Grows`), and names differ (`Module.NamedApart`).

A call that names a function or a block which does not exist has no result, and then the run has
none either. Nothing else can go wrong.

## Main definitions

* `Build.Call`, `Function.Call`, `Module.Call` — the calls
* `Handle`, `Item` — what an index is handed out for, and what it denotes
* `Function.Grows`, `Module.Grows` — what may change about a thing that exists

## Main results

* `Function.grows_of_calls?`, `Module.grows_of_calls?` — indices keep their meaning
* `Module.namedApart_of_calls?` — names differ
* `Module.calls?_keep_names` — names and indices of symbols and blocks lead to each other
-/

namespace Mos6502.IR

open Text

/-! ### Calls -/

/-- The name of a local that nobody named, by its index. -/
def generatedName (index : Nat) : String :=
  "t" ++ Nat.repr index

namespace Build

/-- A call that appends an instruction. -/
inductive Call where
  | alloca (ty : Ty) (name : String)
  | load (ty : Ty) (ptr : Value)
  | store (value ptr : Value)
  | binary (op : BinOp) (lhs rhs : Value)
  | icmp (pred : Predicate) (lhs rhs : Value)
  | br (target : Nat)
  | unreachable
deriving DecidableEq

namespace Call

/-- Makes the call. It returns the local that it defines, if it defines one. -/
def run : Call → Build (Option Value)
  | alloca ty name => some <$> Build.alloca ty name
  | load ty ptr => some <$> Build.load ty ptr
  | store value ptr => do Build.store value ptr; return none
  | binary op lhs rhs => some <$> Build.binary op lhs rhs
  | icmp pred lhs rhs => some <$> Build.icmp pred lhs rhs
  | br target => do Build.br target; return none
  | unreachable => do Build.unreachable; return none

/-- The instruction of the call, where the next local is `dest`. -/
def inst (dest : Nat) : Call → Inst
  | alloca ty _ => .alloca dest ty
  | load ty ptr => .load dest ty ptr
  | store value ptr => .store value ptr
  | binary op lhs rhs => .binary dest op lhs rhs
  | icmp pred lhs rhs => .icmp dest pred lhs rhs
  | br target => .br target
  | unreachable => .unreachable

/-- The local that the call makes next to those there are. -/
def newLocal? (locals : List Local) : Call → Option Local
  | alloca _ name => some ⟨freshName name (locals.map Local.name), .ptr⟩
  | load ty _ => some ⟨generatedName locals.length, ty⟩
  | binary _ lhs _ => some ⟨generatedName locals.length, (lhs.tyIn? locals).getD .void⟩
  | icmp _ _ _ => some ⟨generatedName locals.length, .i1⟩
  | store _ _ | br _ | unreachable => none

/-- **A call of the builder** makes its local and appends its instruction. -/
theorem run_eq (c : Call) (d : Draft) :
    c.run.run d =
      ((c.newLocal? d.locals).map fun _ => .ofLocal d.locals.length,
        ⟨d.locals ++ (c.newLocal? d.locals).toList, d.insts ++ [c.inst d.locals.length]⟩) := by
  have hnone : ∀ insts : List Inst, (⟨d.locals, insts⟩ : Draft) = ⟨d.locals ++ [], insts⟩ := by
    intro insts
    rw [List.append_nil]
  cases c with
  | alloca | load | icmp => rfl
  | binary _ lhs _ => cases lhs <;> rfl
  | store | br | unreachable => exact congrArg (Prod.mk none) (hnone _)

theorem dest?_inst (c : Call) (locals : List Local) :
    (c.inst locals.length).dest? = (c.newLocal? locals).map fun _ => locals.length := by
  cases c <;> rfl

end Call

end Build

/-- A call on a function. -/
inductive Function.Call where
  | appendBlock (name : String)
  /-- A call of the builder at the end of a block. -/
  | build (block : Nat) (call : Build.Call)
deriving DecidableEq

/-- A call on a module. -/
inductive Module.Call where
  | addGlobal (name : String) (linkage : Linkage) (init : List UInt8)
  | addFunction (name : String) (ret : Ty) (params : List Ty) (linkage : Linkage)
  | inFunction (func : Nat) (call : Function.Call)
deriving DecidableEq

/-- What an index is handed out for. -/
inductive Handle where
  | global (index : Nat)
  | function (index : Nat)
  | block (func index : Nat)
deriving DecidableEq

/-- Makes a call, which may return a value. There is no result if the block does not exist. -/
def Function.call? (f : Function) : Call → Option (Option Value × Function)
  | .appendBlock name => some (none, f.appendBlock name)
  | .build block call => f.inBlock? block call.run

/-- Makes calls one after the other and collects what they return. -/
def Function.calls? (f : Function) : List Call → Option (List Value × Function)
  | [] => some ([], f)
  | c :: cs => do
    let (v, f') ← f.call? c
    let (vs, f'') ← f'.calls? cs
    return (v.toList ++ vs, f'')

/-- What a call on function number `func` hands out. -/
def Function.Call.handle? (func : Nat) (f : Function) : Call → Option Handle
  | appendBlock _ => some (.block func f.blocks.length)
  | build _ _ => none

/-- Makes a call, which may hand out an index. There is no result if the function or the block does
not exist. -/
def Module.call? (m : Module) : Call → Option (Option Handle × Module)
  | .addGlobal name linkage init =>
    some (some (.global m.globals.length), m.addGlobal name linkage init)
  | .addFunction name ret params linkage =>
    some (some (.function m.functions.length), m.addFunction name ret params linkage)
  | .inFunction func c =>
    m.inFunction? func fun f => do
      let (_, f') ← f.call? c
      return (c.handle? func f, f')

/-- Makes calls one after the other. -/
def Module.calls? (m : Module) : List Call → Option Module
  | [] => some m
  | c :: cs => do
    let (_, m') ← m.call? c
    m'.calls? cs

/-! ### What one call can do -/

/-- The function with a call of the builder made at the end of block `b`. -/
def Function.built (f : Function) (block : Nat) (b : Block) (c : Build.Call) : Function :=
  { f with
    locals := f.locals ++ (c.newLocal? f.locals).toList
    blocks := f.blocks.set block { b with insts := b.insts ++ [c.inst f.locals.length] } }

theorem Function.inBlock?_run (f : Function) (block : Nat) (c : Build.Call) :
    f.inBlock? block c.run =
      f.blocks[block]?.map fun b =>
        ((c.newLocal? f.locals).map fun _ => .ofLocal f.locals.length, f.built block b c) := by
  cases hb : f.blocks[block]? with
  | none => simp [inBlock?, hb]
  | some b => simp [inBlock?, hb, c.run_eq, built]

/-- **A call on a function** appends a block, or an instruction with its local. -/
theorem Function.call?_cases {f f' : Function} {c : Call} {v : Option Value}
    (h : f.call? c = some (v, f')) :
    (∃ name, c = .appendBlock name ∧ v = none ∧ f' = f.appendBlock name) ∨
      ∃ block b call, c = .build block call ∧ f.blocks[block]? = some b ∧
        v = ((call.newLocal? f.locals).map fun _ => .ofLocal f.locals.length) ∧
        f' = f.built block b call := by
  cases c with
  | appendBlock name =>
    cases h
    exact .inl ⟨name, rfl, rfl, rfl⟩
  | build block call =>
    rw [call?, inBlock?_run] at h
    obtain ⟨b, hb, heq⟩ := Option.map_eq_some_iff.mp h
    cases heq
    exact .inr ⟨block, b, call, rfl, hb, rfl, rfl⟩

/-- **A call on a module** adds a symbol, or changes one function by a call on it. -/
theorem Module.call?_cases {m m' : Module} {c : Call} {handle : Option Handle}
    (h : m.call? c = some (handle, m')) :
    (∃ name linkage init, c = .addGlobal name linkage init ∧
        handle = some (.global m.globals.length) ∧ m' = m.addGlobal name linkage init) ∨
      (∃ name ret params linkage, c = .addFunction name ret params linkage ∧
        handle = some (.function m.functions.length) ∧
        m' = m.addFunction name ret params linkage) ∨
      ∃ func call f v f', c = .inFunction func call ∧ m.functions[func]? = some f ∧
        f.call? call = some (v, f') ∧ handle = call.handle? func f ∧
        m' = { m with functions := m.functions.set func f' } := by
  cases c with
  | addGlobal name linkage init =>
    cases h
    exact .inl ⟨name, linkage, init, rfl, rfl, rfl⟩
  | addFunction name ret params linkage =>
    cases h
    exact .inr (.inl ⟨name, ret, params, linkage, rfl, rfl, rfl⟩)
  | inFunction func call =>
    simp only [call?, inFunction?, Option.bind_eq_bind, Option.bind_eq_some_iff,
      Option.pure_def, Option.some.injEq] at h
    obtain ⟨f, hf, ⟨handle', f'⟩, ⟨⟨v, f''⟩, hcall, heq⟩, hm⟩ := h
    cases heq
    cases hm
    exact .inr (.inr ⟨func, call, f, v, f'', rfl, hf, hcall, rfl, rfl⟩)

/-! ### Runs -/

theorem Function.calls?_cons_eq_some_iff {f f' : Function} {c : Call} {cs : List Call}
    {vs : List Value} :
    f.calls? (c :: cs) = some (vs, f') ↔
      ∃ v f₁ vs', f.call? c = some (v, f₁) ∧ f₁.calls? cs = some (vs', f') ∧
        vs = v.toList ++ vs' := by
  simp only [calls?, Option.bind_eq_bind, Option.bind_eq_some_iff, Option.pure_def,
    Option.some.injEq, Prod.mk.injEq, Prod.exists]
  constructor
  · rintro ⟨v, f₁, hcall, vs', f₂, hcalls, rfl, rfl⟩
    exact ⟨v, f₁, vs', hcall, hcalls, rfl⟩
  · rintro ⟨v, f₁, vs', hcall, hcalls, rfl⟩
    exact ⟨v, f₁, hcall, vs', f', hcalls, rfl, rfl⟩

/-- A run can be cut anywhere. -/
theorem Function.calls?_append_eq_some_iff {f f' : Function} {cs ds : List Call}
    {vs : List Value} :
    f.calls? (cs ++ ds) = some (vs, f') ↔
      ∃ vs₁ f₁ vs₂, f.calls? cs = some (vs₁, f₁) ∧ f₁.calls? ds = some (vs₂, f') ∧
        vs = vs₁ ++ vs₂ := by
  induction cs generalizing f vs with
  | nil => simp [calls?]
  | cons c cs ih =>
    simp only [List.cons_append, calls?_cons_eq_some_iff, ih]
    constructor
    · rintro ⟨v, f₁, -, hcall, ⟨vs₁, f₂, vs₂, hcs, hds, rfl⟩, rfl⟩
      exact ⟨_, f₂, vs₂, ⟨v, f₁, vs₁, hcall, hcs, rfl⟩, hds, by rw [List.append_assoc]⟩
    · rintro ⟨-, f₂, vs₂, ⟨v, f₁, vs₁, hcall, hcs, rfl⟩, hds, rfl⟩
      exact ⟨v, f₁, _, hcall, ⟨vs₁, f₂, vs₂, hcs, hds, rfl⟩, by rw [List.append_assoc]⟩

theorem Module.calls?_cons_eq_some_iff {m m' : Module} {c : Call} {cs : List Call} :
    m.calls? (c :: cs) = some m' ↔
      ∃ handle m₁, m.call? c = some (handle, m₁) ∧ m₁.calls? cs = some m' := by
  simp only [calls?, Option.bind_eq_bind, Option.bind_eq_some_iff, Prod.exists]

/-! ### Growth -/

/-- Every entry of a list is still at its place, up to what may have changed about it. -/
def KeepsEntries {α : Type} (R : α → α → Prop) (xs ys : List α) : Prop :=
  ∀ (i : Nat) (x : α), xs[i]? = some x → ∃ y, ys[i]? = some y ∧ R x y

namespace KeepsEntries

variable {α : Type} {R : α → α → Prop} {xs ys zs : List α}

theorem refl (hrefl : ∀ x, R x x) (xs : List α) : KeepsEntries R xs xs :=
  fun _ x hx => ⟨x, hx, hrefl x⟩

theorem trans (htrans : ∀ {x y z}, R x y → R y z → R x z) (h : KeepsEntries R xs ys)
    (h' : KeepsEntries R ys zs) : KeepsEntries R xs zs := by
  intro i x hx
  obtain ⟨y, hy, hxy⟩ := h i x hx
  obtain ⟨z, hz, hyz⟩ := h' i y hy
  exact ⟨z, hz, htrans hxy hyz⟩

theorem append (hrefl : ∀ x, R x x) (xs more : List α) : KeepsEntries R xs (xs ++ more) := by
  intro i x hx
  have hlt : i < xs.length := (List.getElem?_eq_some_iff.mp hx).1
  exact ⟨x, by rw [List.getElem?_append_left hlt, hx], hrefl x⟩

theorem set (hrefl : ∀ x, R x x) {k : Nat} {x y : α} (hx : xs[k]? = some x) (hxy : R x y) :
    KeepsEntries R xs (xs.set k y) := by
  intro i z hz
  by_cases hi : k = i
  · subst hi
    have hlt : k < xs.length := (List.getElem?_eq_some_iff.mp hx).1
    obtain rfl : x = z := Option.some.inj (hx.symm.trans hz)
    exact ⟨y, List.getElem?_set_self hlt, hxy⟩
  · exact ⟨z, by rw [List.getElem?_set_ne hi, hz], hrefl z⟩

end KeepsEntries

/-- The block is the same, with more code at its end. -/
structure Block.Grows (b b' : Block) : Prop where
  name : b'.name = b.name
  pinned : b'.pinned = b.pinned
  insts : b.insts <+: b'.insts

/-- The function is the same, with more locals and blocks after those there are, and with blocks
that have grown. -/
structure Function.Grows (f f' : Function) : Prop where
  head : { f' with locals := [], blocks := [] } = { f with locals := [], blocks := [] }
  locals : f.locals <+: f'.locals
  blocks : KeepsEntries Block.Grows f.blocks f'.blocks

/-- The module is the same, with more constants and functions after those there are, and with
functions that have grown. -/
structure Module.Grows (m m' : Module) : Prop where
  name : m'.name = m.name
  globals : m.globals <+: m'.globals
  functions : KeepsEntries Function.Grows m.functions m'.functions

theorem Block.Grows.refl (b : Block) : b.Grows b :=
  ⟨rfl, rfl, List.prefix_rfl⟩

theorem Block.Grows.trans {b b' b'' : Block} (h : b.Grows b') (h' : b'.Grows b'') : b.Grows b'' :=
  ⟨h'.name.trans h.name, h'.pinned.trans h.pinned, h.insts.trans h'.insts⟩

namespace Function

theorem Grows.refl (f : Function) : f.Grows f :=
  ⟨rfl, List.prefix_rfl, .refl Block.Grows.refl _⟩

theorem Grows.trans {f f' f'' : Function} (h : f.Grows f') (h' : f'.Grows f'') : f.Grows f'' :=
  ⟨h'.head.trans h.head, h.locals.trans h'.locals, h.blocks.trans Block.Grows.trans h'.blocks⟩

theorem Grows.name_eq {f f' : Function} (h : f.Grows f') : f'.name = f.name := by
  have hname := congrArg Function.name h.head
  exact hname

theorem grows_appendBlock (f : Function) (name : String) : f.Grows (f.appendBlock name) :=
  ⟨rfl, List.prefix_rfl, .append Block.Grows.refl _ _⟩

theorem grows_built {f : Function} {block : Nat} {b : Block} (hb : f.blocks[block]? = some b)
    (c : Build.Call) : f.Grows (f.built block b c) :=
  ⟨rfl, List.prefix_append _ _,
    .set Block.Grows.refl hb ⟨rfl, rfl, List.prefix_append _ _⟩⟩

theorem grows_of_call? {f f' : Function} {c : Call} {v : Option Value}
    (h : f.call? c = some (v, f')) : f.Grows f' := by
  obtain ⟨name, -, -, rfl⟩ | ⟨block, b, call, -, hb, -, rfl⟩ := call?_cases h
  · exact f.grows_appendBlock name
  · exact grows_built hb call

/-- **Indices keep their meaning** while calls are made on a function. -/
theorem grows_of_calls? {f f' : Function} {cs : List Call} {vs : List Value}
    (h : f.calls? cs = some (vs, f')) : f.Grows f' := by
  induction cs generalizing f vs with
  | nil =>
    cases h
    exact .refl _
  | cons c cs ih =>
    obtain ⟨v, f₁, vs', hcall, hcalls, -⟩ := calls?_cons_eq_some_iff.mp h
    exact (grows_of_call? hcall).trans (ih hcalls)

end Function

namespace Module

theorem Grows.refl (m : Module) : m.Grows m :=
  ⟨rfl, List.prefix_rfl, .refl Function.Grows.refl _⟩

theorem Grows.trans {m m' m'' : Module} (h : m.Grows m') (h' : m'.Grows m'') : m.Grows m'' :=
  ⟨h'.name.trans h.name, h.globals.trans h'.globals,
    h.functions.trans Function.Grows.trans h'.functions⟩

theorem grows_of_call? {m m' : Module} {c : Call} {handle : Option Handle}
    (h : m.call? c = some (handle, m')) : m.Grows m' := by
  obtain ⟨name, linkage, init, -, -, rfl⟩ | ⟨name, ret, params, linkage, -, -, rfl⟩ |
    ⟨func, call, f, v, f', -, hf, hcall, -, rfl⟩ := call?_cases h
  · exact ⟨rfl, List.prefix_append _ _, .refl Function.Grows.refl _⟩
  · exact ⟨rfl, List.prefix_rfl, .append Function.Grows.refl _ _⟩
  · exact ⟨rfl, List.prefix_rfl, .set Function.Grows.refl hf (Function.grows_of_call? hcall)⟩

/-- **Indices keep their meaning** while calls are made on a module. -/
theorem grows_of_calls? {m m' : Module} {cs : List Call} (h : m.calls? cs = some m') :
    m.Grows m' := by
  induction cs generalizing m with
  | nil =>
    cases h
    exact .refl _
  | cons c cs ih =>
    obtain ⟨handle, m₁, hcall, hcalls⟩ := calls?_cons_eq_some_iff.mp h
    exact (grows_of_call? hcall).trans (ih hcalls)

end Module

/-! ### Names -/

/-- No two symbols of the module have one name, and no two blocks of one function. -/
structure Module.NamedApart (m : Module) : Prop where
  symbols : m.symbols.Nodup
  blocks : ∀ f ∈ m.functions, f.blockNames.Nodup

/-- An entry that is replaced by one of the same name leaves the names as they are. -/
theorem map_set_of_eq {α β : Type} {g : α → β} {xs : List α} {k : Nat} {x y : α}
    (hx : xs[k]? = some x) (h : g y = g x) : (xs.set k y).map g = xs.map g := by
  obtain ⟨hlt, rfl⟩ := List.getElem?_eq_some_iff.mp hx
  have hlt' : k < (xs.map g).length := by rwa [List.length_map]
  have hget : g xs[k] = (xs.map g)[k] := by rw [List.getElem_map]
  rw [List.map_set, h, hget, List.set_getElem_self]

theorem Function.nodup_blockNames_of_call? {f f' : Function} {c : Call} {v : Option Value}
    (h : f.call? c = some (v, f')) (hnodup : f.blockNames.Nodup) : f'.blockNames.Nodup := by
  obtain ⟨name, -, -, rfl⟩ | ⟨block, b, call, -, hb, -, rfl⟩ := call?_cases h
  · exact nodup_blockNames_appendBlock hnodup name
  · have hnames : (f.built block b call).blockNames = f.blockNames := map_set_of_eq hb rfl
    rwa [hnames]

namespace Module

theorem namedApart_of_call? {m m' : Module} {c : Call} {handle : Option Handle}
    (h : m.call? c = some (handle, m')) (hm : m.NamedApart) : m'.NamedApart := by
  obtain ⟨name, linkage, init, -, -, rfl⟩ | ⟨name, ret, params, linkage, -, -, rfl⟩ |
    ⟨func, call, f, v, f', -, hf, hcall, -, rfl⟩ := call?_cases h
  · exact ⟨nodup_symbols_addGlobal hm.symbols name linkage init, hm.blocks⟩
  · refine ⟨nodup_symbols_addFunction hm.symbols name ret params linkage, fun f hf => ?_⟩
    rcases List.mem_append.mp hf with hf | hf
    · exact hm.blocks f hf
    · rw [List.mem_singleton.mp hf]
      exact List.nodup_nil
  · refine ⟨?_, fun g hg => ?_⟩
    · rw [symbols, map_set_of_eq hf (Function.grows_of_call? hcall).name_eq]
      exact hm.symbols
    · rcases List.mem_or_eq_of_mem_set hg with hg | rfl
      · exact hm.blocks g hg
      · exact Function.nodup_blockNames_of_call? hcall (hm.blocks f (List.mem_of_getElem? hf))

/-- **Names differ**, whatever calls are made. -/
theorem namedApart_of_calls? {m m' : Module} {cs : List Call} (h : m.calls? cs = some m')
    (hm : m.NamedApart) : m'.NamedApart := by
  induction cs generalizing m with
  | nil =>
    cases h
    exact hm
  | cons c cs ih =>
    obtain ⟨handle, m₁, hcall, hcalls⟩ := calls?_cons_eq_some_iff.mp h
    exact ih hcalls (namedApart_of_call? hcall hm)

end Module

/-! ### Handles -/

/-- What a handle denotes. -/
inductive Item where
  | global (g : Global)
  | function (f : Function)
  | block (b : Block)
deriving DecidableEq

namespace Item

/-- The name of what was added, which may not be the one that was asked for. -/
def name : Item → String
  | global g => g.name
  | function f => f.name
  | block b => b.name

/-- The second item is the first one at a later time. A constant never changes. -/
def Grows : Item → Item → Prop
  | global g, global g' => g' = g
  | function f, function f' => f.Grows f'
  | block b, block b' => b.Grows b'
  | _, _ => False

end Item

namespace Module

/-- The item of a handle. -/
def item? (m : Module) : Handle → Option Item
  | .global i => m.globals[i]?.map .global
  | .function i => m.functions[i]?.map .function
  | .block func i => m.functions[func]?.bind fun f => f.blocks[i]?.map .block

/-- Looks for a name among the items of the same kind; for a block, in its function. -/
def find? (m : Module) : Handle → String → Option Handle
  | .global _, name => (m.findGlobal? name).map .global
  | .function _, name => (m.findFunction? name).map .function
  | .block func _, name =>
    m.functions[func]?.bind fun f => (f.findBlock? name).map (.block func)

/-- The names that a new item must not take: those of all symbols, or those of the blocks in its
function. -/
def rivals (m : Module) : Handle → List String
  | .global _ | .function _ => m.symbols
  | .block func _ => (m.functions[func]?.map Function.blockNames).getD []

/-- The name that a call asks for. -/
def Call.requested? : Call → Option String
  | addGlobal name _ _ | addFunction name _ _ _ | inFunction _ (.appendBlock name) => some name
  | inFunction _ (.build _ _) => none

/-- The function and the block that the call is made on exist. -/
def Call.Fits (m : Module) : Call → Prop
  | addGlobal _ _ _ | addFunction _ _ _ _ => True
  | inFunction func (.appendBlock _) => func < m.functions.length
  | inFunction func (.build block _) => ∃ f, m.functions[func]? = some f ∧ block < f.blocks.length

end Module

/-- What a requested name becomes next to names that are taken: it stays as it is if it is free, and
it gets a number if it is not. -/
structure NamedFor (taken : List String) (requested name : String) : Prop where
  free : name ∉ taken
  kept : requested ∉ taken → name = requested
  numbered : requested ∈ taken → ∃ i, 0 < i ∧ name = suffixed requested i

theorem namedFor_freshName (taken : List String) (requested : String) :
    NamedFor taken requested (freshName requested taken) :=
  ⟨freshName_not_mem requested taken, freshName_of_not_mem, exists_freshName_eq_suffixed⟩

/-- Where names differ, the first entry of a name is the only one. -/
theorem findIdx?_eq_of_nodup {α : Type} {name : α → String} {xs : List α}
    (hnodup : (xs.map name).Nodup) {i : Nat} {x : α} (hx : xs[i]? = some x) :
    xs.findIdx? (fun y => name y == name x) = some i := by
  obtain ⟨hi, rfl⟩ := List.getElem?_eq_some_iff.mp hx
  refine List.findIdx?_eq_some_iff_getElem.mpr ⟨hi, beq_self_eq_true _, fun j hj heq => ?_⟩
  have hi' : i < (xs.map name).length := by rwa [List.length_map]
  have hj' : j < (xs.map name).length := Nat.lt_trans hj hi'
  have hnames : (xs.map name)[j] = (xs.map name)[i] := by
    rw [List.getElem_map, List.getElem_map]
    exact eq_of_beq heq
  exact Nat.ne_of_lt hj (hnodup.getElem_inj_iff.mp hnames)

namespace Module

/-- An item is found by its name. -/
theorem NamedApart.find?_name {m : Module} (h : m.NamedApart) {handle : Handle} {item : Item}
    (hitem : m.item? handle = some item) : m.find? handle item.name = some handle := by
  have hsymbols := List.nodup_append.mp h.symbols
  cases handle with
  | global i =>
    obtain ⟨g, hg, rfl⟩ := Option.map_eq_some_iff.mp hitem
    rw [find?, findGlobal?, Item.name, findIdx?_eq_of_nodup hsymbols.1 hg]
    rfl
  | function i =>
    obtain ⟨f, hf, rfl⟩ := Option.map_eq_some_iff.mp hitem
    rw [find?, findFunction?, Item.name, findIdx?_eq_of_nodup hsymbols.2.1 hf]
    rfl
  | block func i =>
    obtain ⟨f, hf, hblock⟩ := Option.bind_eq_some_iff.mp hitem
    obtain ⟨b, hb, rfl⟩ := Option.map_eq_some_iff.mp hblock
    have hnodup := h.blocks f (List.mem_of_getElem? hf)
    rw [find?, hf, Option.bind_some, Function.findBlock?, Item.name,
      findIdx?_eq_of_nodup hnodup hb]
    rfl

/-- An item stays under its handle. -/
theorem Grows.exists_item {m m' : Module} (h : m.Grows m') {handle : Handle} {item : Item}
    (hitem : m.item? handle = some item) :
    ∃ item', m'.item? handle = some item' ∧ item.Grows item' := by
  cases handle with
  | global i =>
    obtain ⟨g, hg, rfl⟩ := Option.map_eq_some_iff.mp hitem
    obtain ⟨hlt, rfl⟩ := List.getElem?_eq_some_iff.mp hg
    have hg' := List.prefix_iff_getElem?.mp h.globals i hlt
    exact ⟨.global m.globals[i], by rw [item?, hg']; rfl, rfl⟩
  | function i =>
    obtain ⟨f, hf, rfl⟩ := Option.map_eq_some_iff.mp hitem
    obtain ⟨f', hf', hgrows⟩ := h.functions i f hf
    exact ⟨.function f', by rw [item?, hf']; rfl, hgrows⟩
  | block func i =>
    obtain ⟨f, hf, hblock⟩ := Option.bind_eq_some_iff.mp hitem
    obtain ⟨b, hb, rfl⟩ := Option.map_eq_some_iff.mp hblock
    obtain ⟨f', hf', hgrows⟩ := h.functions func f hf
    obtain ⟨b', hb', hgrows'⟩ := hgrows.blocks i b hb
    exact ⟨.block b', by rw [item?, hf', Option.bind_some, hb']; rfl, hgrows'⟩

/-- **What is handed out** is new, and denotes what the call added. -/
theorem exists_item_of_call? {m m' : Module} {c : Call} {handle : Handle}
    (h : m.call? c = some (some handle, m')) :
    m.item? handle = none ∧ ∃ requested item, c.requested? = some requested ∧
      m'.item? handle = some item ∧ NamedFor (m.rivals handle) requested item.name := by
  obtain ⟨name, linkage, init, rfl, heq, rfl⟩ | ⟨name, ret, params, linkage, rfl, heq, rfl⟩ |
    ⟨func, call, f, v, f', rfl, hf, hcall, heq, rfl⟩ := call?_cases h
  · cases heq
    refine ⟨by simp [item?], name, .global ⟨freshName name m.symbols, linkage, true, init⟩, rfl, ?_,
      namedFor_freshName _ _⟩
    simp [item?, addGlobal]
  · cases heq
    refine ⟨by simp [item?], name,
      .function { name := freshName name m.symbols, ret, params, linkage }, rfl, ?_,
      namedFor_freshName _ _⟩
    simp [item?, addFunction]
  · cases call with
    | build => cases heq
    | appendBlock name =>
      cases heq
      cases hcall
      have hlt : func < m.functions.length := (List.getElem?_eq_some_iff.mp hf).1
      have hrivals : m.rivals (.block func f.blocks.length) = f.blockNames := by
        rw [rivals, hf]
        rfl
      refine ⟨by simp [item?, hf], name, .block { name := freshName name f.blockNames }, rfl, ?_, ?_⟩
      · simp [item?, hlt, Function.appendBlock]
      · rw [hrivals]
        exact namedFor_freshName _ _

theorem Call.Fits.exists_call? {m : Module} {c : Call} (h : c.Fits m) :
    ∃ handle m', m.call? c = some (handle, m') := by
  cases c with
  | addGlobal | addFunction => exact ⟨_, _, rfl⟩
  | inFunction func call =>
    cases call with
    | appendBlock name =>
      have hf : m.functions[func]? = some _ := List.getElem?_eq_getElem h
      simp [call?, inFunction?, hf, Function.call?]
    | build block call =>
      obtain ⟨f, hf, hlt⟩ := h
      have hb : f.blocks[block]? = some _ := List.getElem?_eq_getElem hlt
      simp [call?, inFunction?, hf, Function.call?, Function.inBlock?_run, hb]

/-- **Names and indices lead to each other.** Whatever calls were made on a new module, its symbols
have different names, and so have the blocks of each function; and looking for the name of an item
gives its index. The next call goes through if what it is made on exists. The index that it hands
out is new, and denotes the item that was added: under the requested name if that was free, and
under a numbered one if not. Whatever calls come then, the index denotes that item. -/
theorem calls?_keep_names (name : String) (calls : List Call) (m : Module)
    (h : ({ name } : Module).calls? calls = some m) :
    m.symbols.Nodup ∧ (∀ f ∈ m.functions, f.blockNames.Nodup) ∧
      (∀ handle item, m.item? handle = some item → m.find? handle item.name = some handle) ∧
      (∀ call, call.Fits m → ∃ handle m', m.call? call = some (handle, m')) ∧
      ∀ call handle m', m.call? call = some (some handle, m') →
        m.item? handle = none ∧ ∃ requested item, call.requested? = some requested ∧
          m'.item? handle = some item ∧ NamedFor (m.rivals handle) requested item.name ∧
          ∀ more m'', m'.calls? more = some m'' →
            ∃ item', m''.item? handle = some item' ∧ item.Grows item' := by
  have hnew : ({ name } : Module).NamedApart := ⟨List.nodup_nil, nofun⟩
  have hm := namedApart_of_calls? h hnew
  refine ⟨hm.symbols, hm.blocks, fun _ _ => hm.find?_name, fun _ => Call.Fits.exists_call?, ?_⟩
  intro call handle m' hcall
  obtain ⟨hnone, requested, item, hrequested, hitem, hnamed⟩ := exists_item_of_call? hcall
  refine ⟨hnone, requested, item, hrequested, hitem, hnamed, fun more m'' hmore => ?_⟩
  exact (grows_of_calls? hmore).exists_item hitem

end Module

/-- Calls that ask for the same names again, and for names which look as if they were numbered. -/
def crowdedCalls : List Module.Call :=
  [.addGlobal "x" .internal [], .addFunction "x.1" .i32 [] .external, .addGlobal "x" .internal [7],
    .inFunction 0 (.appendBlock "loop"), .addFunction "x" .void [] .external,
    .inFunction 0 (.appendBlock "loop"), .inFunction 0 (.build 1 .unreachable)]

/-- The module that these calls make. -/
def crowdedModule : Module :=
  { name := "test"
    globals := [⟨"x", .internal, true, []⟩, ⟨"x.2", .internal, true, [7]⟩]
    functions :=
      [{ name := "x.1", ret := .i32, params := [], linkage := .external
         blocks := [{ name := "loop" }, { name := "loop.1", insts := [.unreachable] }] },
        { name := "x.3", ret := .void, params := [], linkage := .external }] }

theorem calls?_keep_names_crowdedCalls :
    ({ name := "test" } : Module).calls? crowdedCalls = some crowdedModule ∧
      crowdedModule.symbols.Nodup ∧
      crowdedModule.find? (.function 1) "x.3" = some (.function 1) ∧
      crowdedModule.find? (.block 0 1) "loop.1" = some (.block 0 1) ∧
      ∃ m' item, crowdedModule.call? (.addGlobal "x.1" .internal []) = some (some (.global 2), m') ∧
        m'.item? (.global 2) = some item ∧ NamedFor crowdedModule.symbols "x.1" item.name := by
  have hcalls : ({ name := "test" } : Module).calls? crowdedCalls = some crowdedModule := by decide
  obtain ⟨hsymbols, -, hfind, -, hadd⟩ :=
    Module.calls?_keep_names "test" crowdedCalls crowdedModule hcalls
  obtain ⟨-, requested, item, hrequested, hitem, hnamed, -⟩ :=
    hadd (.addGlobal "x.1" .internal []) (.global 2) _ rfl
  cases hrequested
  exact ⟨hcalls, hsymbols, hfind (.function 1) _ rfl, hfind (.block 0 1) _ rfl, _, item, rfl, hitem,
    hnamed⟩

end Mos6502.IR
