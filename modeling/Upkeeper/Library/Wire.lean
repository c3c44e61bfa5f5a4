import Mathlib.Data.List.Basic
import Mathlib.Data.List.Forall2
import Upkeeper.Library.CString
/-!
# Readers and writers of byte buffers

C code that moves a pointer through a buffer, with every access checked: a `Reader` consumes the bytes left in
front of the pointer, a `Writer` appends to a buffer of fixed capacity, and what C leaves undefined is a `Fault`.

`Reads d bs a` says that `d` turns the bytes `bs` into `a` and stops behind them, `Emits p bs` that `p` writes `bs`,
and needs the room for it: a round trip is a `Reads` for what was `Emits`. A list of `Item`s is a layout: a grammar of
messages, whose sentences are the byte strings that are made of the items (`Spells`), whatever reads them. `Follows d
is` says that the reader `d` accepts exactly the buffers that start with the items, and faults on every other.
-/

namespace Wire

/-- What ends a C program, or is undefined in it. -/
inductive Fault
  | assertFailed
  | nullCall
  | nullDeref
  | useAfterFree
  | overRead
  | overWrite
  | badCast
  deriving DecidableEq, Repr

theorem ok_bind {α β : Type} (a : α) (f : α → Except Fault β) : (Except.ok a >>= f) = f a := rfl

theorem bind_eq_ok {ε α β : Type} {x : Except ε α} {f : α → Except ε β} {b : β} :
    (x >>= f) = .ok b ↔ ∃ a, x = .ok a ∧ f a = .ok b := by
  cases x with
  | error e => exact ⟨fun h => (nomatch h), fun ⟨a, ha, _⟩ => (nomatch ha)⟩
  | ok a => exact ⟨fun h => ⟨a, rfl, h⟩, fun ⟨a', ha, h⟩ => Except.ok.inj ha ▸ h⟩

theorem toOption_eq_some {ε α : Type} {x : Except ε α} {a : α} (h : x.toOption = some a) : x = .ok a := by
  cases x with
  | error e => cases h
  | ok b => exact congrArg Except.ok (Option.some.inj h)

theorem mapError_eq_ok {ε ε' α : Type} {x : Except ε α} {f : ε → ε'} {b : α} (h : x.mapError f = .ok b) : x = .ok b := by
  cases x with
  | error e => cases h
  | ok a => exact congrArg Except.ok (Except.ok.inj h)

theorem mapM_eq_ok {ε α β : Type} {f : α → Except ε β} {l : List α} {bs : List β} :
    l.mapM f = .ok bs ↔ List.Forall₂ (fun a b => f a = .ok b) l bs := by
  induction l generalizing bs with
  | nil =>
    rw [List.mapM_nil, List.forall₂_nil_left_iff]
    exact ⟨fun h => (Except.ok.inj h).symm, fun h => congrArg Except.ok h.symm⟩
  | cons a l ih =>
    rw [List.mapM_cons, List.forall₂_cons_left_iff, bind_eq_ok]
    refine exists_congr fun b => ?_
    rw [bind_eq_ok]
    constructor
    · rintro ⟨hb, bs', hbs', h⟩
      exact ⟨bs', hb, ih.mp hbs', (Except.ok.inj h).symm⟩
    · rintro ⟨bs', hb, hbs', rfl⟩
      exact ⟨hb, bs', ih.mpr hbs', rfl⟩

theorem exists_mapM_eq_ok {ε α β : Type} {f : α → Except ε β} {l : List α} :
    (∃ bs, l.mapM f = .ok bs) ↔ ∀ a ∈ l, ∃ b, f a = .ok b := by
  simp only [mapM_eq_ok]
  induction l with
  | nil => simp
  | cons a l ih =>
    simp only [List.forall₂_cons_left_iff, List.forall_mem_cons, ← ih]
    constructor
    · rintro ⟨-, b, bs, hb, hbs, -⟩
      exact ⟨⟨b, hb⟩, bs, hbs⟩
    · rintro ⟨⟨b, hb⟩, bs, hbs⟩
      exact ⟨_, b, bs, hb, hbs, rfl⟩

theorem exists_of_mem_mapM {ε α β : Type} {f : α → Except ε β} {l : List α} {bs : List β} {b : β}
    (h : l.mapM f = .ok bs) (hb : b ∈ bs) : ∃ a ∈ l, f a = .ok b := by
  have hall := mapM_eq_ok.mp h
  clear h
  induction hall with
  | nil => cases hb
  | cons ha _ ih =>
    rcases List.mem_cons.mp hb with rfl | hb
    · exact ⟨_, List.mem_cons_self, ha⟩
    · obtain ⟨a, hmem, ha⟩ := ih hb
      exact ⟨a, List.mem_cons_of_mem _ hmem, ha⟩

/-! ### 32-bit integers in network order -/

/-- `htonl`, as the four bytes in memory -/
def be32 (x : UInt32) : List UInt8 :=
  [.ofNat (x.toNat / 0x1000000), .ofNat (x.toNat / 0x10000), .ofNat (x.toNat / 0x100), .ofNat x.toNat]

/-- `ntohl` of four bytes in memory -/
def ofBe32 : List UInt8 → UInt32
  | [a, b, c, d] => .ofNat (a.toNat * 0x1000000 + b.toNat * 0x10000 + c.toNat * 0x100 + d.toNat)
  | _ => 0

@[simp] theorem be32_length (x : UInt32) : (be32 x).length = 4 := rfl

@[simp] theorem ofBe32_be32 (x : UInt32) : ofBe32 (be32 x) = x := by
  have hx : x.toNat < 2 ^ 32 := x.toNat_lt
  apply UInt32.toNat.inj
  simp only [be32, ofBe32, UInt8.toNat_ofNat', UInt32.toNat_ofNat']
  omega

/-! ### Readers -/

/-- A reader of the bytes in front of the pointer. -/
abbrev Reader := StateT (List UInt8) (Except Fault)

namespace Reader

/-- `memcpy` of the next `n` bytes out of the buffer -/
def take (n : Nat) : Reader (List UInt8) := fun bs =>
  if n ≤ bs.length then .ok (bs.take n, bs.drop n) else .error .overRead

/-- The next four bytes, in host order -/
def u32 : Reader UInt32 := do
  let bs ← take 4
  return ofBe32 bs

/-- The next byte -/
def u8 : Reader UInt8 := do
  let bs ← take 1
  return bs.headD 0

/-- Run a reader on another buffer. -/
def within {α : Type} (d : Reader α) (buf : List UInt8) : Reader α := fun bs => do
  let (a, _) ← d buf
  return (a, bs)

/-- `memcpy` of the next `n` bytes into a zeroed `char[max]` -/
def array (max n : Nat) : Reader (CharArr max) := do
  if max < n then throw .overWrite
  let bs ← take n
  return .ofBytes max bs

end Reader

variable {α β : Type} {d : Reader α} {f : α → Reader β} {a : α} {b : β} {bs bs' : List UInt8}

/-- The reader turns `bs` into `a` and stops behind it. -/
def Reads (d : Reader α) (bs : List UInt8) (a : α) : Prop := ∀ rest, d (bs ++ rest) = .ok (a, rest)

theorem Reads.pure (a : α) : Reads (Pure.pure a) [] a := fun _ => rfl

theorem Reads.bind (h : Reads d bs a) (h' : Reads (f a) bs' b) : Reads (d >>= f) (bs ++ bs') b := by
  intro rest
  rw [List.append_assoc]
  show (d (bs ++ (bs' ++ rest))) >>= (fun x => f x.1 x.2) = _
  rw [h]
  exact h' rest

theorem Reader.take_bind (n : Nat) (f : List UInt8 → Reader β) (bs : List UInt8) :
    (Reader.take n >>= f) bs = if n ≤ bs.length then f (bs.take n) (bs.drop n) else .error .overRead := by
  show (Reader.take n bs >>= fun x => f x.1 x.2) = _
  unfold Reader.take
  split <;> rfl

theorem Reader.u32_bind (f : UInt32 → Reader β) (bs : List UInt8) :
    (Reader.u32 >>= f) bs
      = if 4 ≤ bs.length then f (ofBe32 (bs.take 4)) (bs.drop 4) else .error .overRead := by
  rw [Reader.u32, bind_assoc, Reader.take_bind]
  simp only [pure_bind]

theorem Reader.u32_eq (bs : List UInt8) :
    Reader.u32 bs = if 4 ≤ bs.length then .ok (ofBe32 (bs.take 4), bs.drop 4) else .error .overRead :=
  Reader.take_bind 4 (fun x => Pure.pure (ofBe32 x)) bs

theorem Reader.array_bind (max n : Nat) (f : CharArr max → Reader β) (bs : List UInt8) :
    (Reader.array max n >>= f) bs
      = if max < n then .error .overWrite
        else if n ≤ bs.length then f (.ofBytes max (bs.take n)) (bs.drop n) else .error .overRead := by
  unfold Reader.array
  by_cases h : max < n
  · rw [if_pos h, if_pos h]
    rfl
  · rw [if_neg h, if_neg h]
    show ((Reader.take n >>= fun bs => Pure.pure (CharArr.ofBytes max bs)) >>= f) bs = _
    rw [bind_assoc, Reader.take_bind]
    simp only [pure_bind]

theorem Reads.take {n : Nat} (h : bs.length = n) : Reads (Reader.take n) bs bs := by
  intro rest
  simp [Reader.take, ← h]

theorem Reads.u32 (x : UInt32) : Reads Reader.u32 (be32 x) x := by
  have h : Reads Reader.u32 (be32 x ++ []) (ofBe32 (be32 x)) :=
    Reads.bind (Reads.take (be32_length x)) (Reads.pure _)
  rwa [List.append_nil, ofBe32_be32] at h

theorem Reads.within_bind {buf : List UInt8} (h : Reads d buf a) (h' : Reads (f a) bs b) :
    Reads (Reader.within d buf >>= f) bs b := by
  intro rest
  have hbuf := h []
  rw [List.append_nil] at hbuf
  show ((d buf >>= fun x => Pure.pure (x.1, bs ++ rest)) >>= fun x => f x.1 x.2) = _
  rw [hbuf]
  exact h' rest

theorem Reads.array {max : Nat} {n : Nat} (h : bs.length = n) (hmax : n ≤ max) :
    Reads (Reader.array max n) bs (.ofBytes max bs) := by
  have h' : Reads (Reader.array max n) (bs ++ []) (.ofBytes max bs) := by
    unfold Reader.array
    rw [if_neg (by omega)]
    exact Reads.bind (Reads.take h) (Reads.pure _)
  rwa [List.append_nil] at h'

theorem Reads.cons {cs : List (List UInt8)} (h : Reads d bs a) (h' : Reads (f a) cs.flatten b) :
    Reads (d >>= f) (bs :: cs).flatten b := h.bind h'

theorem Reads.nil (a : α) : Reads (Pure.pure a) [].flatten a := Reads.pure a

/-! ### Writers -/

/-- An allocated buffer and what has been written to it so far. -/
structure Buffer where
  capacity : Nat
  written : List UInt8

/-- The buffer from outside: `calloc` has zeroed what is not written. -/
def Buffer.contents (b : Buffer) : List UInt8 :=
  b.written ++ List.replicate (b.capacity - b.written.length) 0

/-- A writer that appends to a buffer. -/
abbrev Writer := StateT Buffer (Except Fault)

namespace Writer

/-- `memcpy` of `bs` to the pointer -/
def put (bs : List UInt8) : Writer Unit := fun b =>
  if b.written.length + bs.length ≤ b.capacity then .ok ((), { b with written := b.written ++ bs })
  else .error .overWrite

/-- Allocate a zeroed buffer, and run the writer on it. -/
def alloc (capacity : Nat) (w : Writer Unit) : Except Fault (List UInt8) := do
  let (_, b) ← w ⟨capacity, []⟩
  return b.contents

end Writer

/-- The writer appends `bs`, and runs over the end of the buffer exactly if there is no room for it. -/
def Emits (p : Writer Unit) (bs : List UInt8) : Prop :=
  ∀ b : Buffer, p b
    = if b.written.length + bs.length ≤ b.capacity then .ok ((), { b with written := b.written ++ bs })
      else .error .overWrite

theorem Emits.put (bs : List UInt8) : Emits (Writer.put bs) bs := fun _ => rfl

theorem Emits.bind {p : Writer Unit} {q : Unit → Writer Unit} (h : Emits p bs) (h' : Emits (q ()) bs') :
    Emits (p >>= q) (bs ++ bs') := by
  intro b
  rw [List.length_append]
  show (p b >>= fun x => q x.1 x.2) = _
  rw [h b]
  by_cases hb : b.written.length + bs.length ≤ b.capacity
  · rw [if_pos hb]
    show q () { b with written := b.written ++ bs } = _
    rw [h', List.length_append, List.append_assoc, Nat.add_assoc]
  · rw [if_neg hb, if_neg (by omega)]
    rfl

theorem Emits.cons {cs : List (List UInt8)} {p : Writer Unit} {q : Unit → Writer Unit} (h : Emits p bs)
    (h' : Emits (q ()) cs.flatten) : Emits (p >>= q) (bs :: cs).flatten := h.bind h'

theorem Emits.single {p : Writer Unit} (h : Emits p bs) : Emits p [bs].flatten := by
  rw [List.flatten_cons, List.flatten_nil, List.append_nil]
  exact h

theorem Emits.lift_bind {e : Except Fault α} {q : α → Writer Unit} (he : e = .ok a) (h : Emits (q a) bs) :
    Emits (monadLift e >>= q) bs := by
  intro b
  subst he
  exact h b

/-- Of its buffer, the allocating writer needs and fills exactly the first `bs.length` bytes. -/
def Fills (f : Nat → Except Fault (List UInt8)) (bs : List UInt8) : Prop :=
  ∀ n, f n = if bs.length ≤ n then .ok (bs ++ List.replicate (n - bs.length) 0) else .error .overWrite

theorem Emits.alloc {p : Writer Unit} (h : Emits p bs) (n : Nat) :
    Writer.alloc n p
      = if bs.length ≤ n then .ok (bs ++ List.replicate (n - bs.length) 0) else .error .overWrite := by
  unfold Writer.alloc
  rw [h ⟨n, []⟩, List.length_nil, Nat.zero_add]
  split <;> rfl

theorem Emits.fills {p : Writer Unit} (h : Emits p bs) : Fills (fun n => Writer.alloc n p) bs := h.alloc

theorem Fills.exact {f : Nat → Except Fault (List UInt8)} (h : Fills f bs) : f bs.length = .ok bs := by
  rw [h, if_pos (le_refl _), Nat.sub_self, List.replicate_zero, List.append_nil]

/-! ### Layouts -/

/-- A field of a record: an integer, a byte, or a string of at most `max` bytes behind its length. -/
inductive Field
  | u32
  | u8
  | str (max : Nat)
  deriving DecidableEq, Repr

/-- An item of a message: a field, or a block of fields behind the length of the block. -/
inductive Item
  | field (f : Field)
  | block (fs : List Field)
  deriving DecidableEq, Repr

/-- The bytes of a field: of a number, of a byte, of a text behind its length -/
inductive Field.Spells : Field → List UInt8 → Prop
  | u32 (x : UInt32) : Spells .u32 (be32 x)
  | u8 (b : UInt8) : Spells .u8 [b]
  | str {max : Nat} {n : UInt32} {s : List UInt8} (hlen : s.length = n.toNat) (hmax : s.length ≤ max) :
    Spells (.str max) (be32 n ++ s)

/-- The bytes of the members, one behind the other, and nothing else -/
inductive Sequence {ι : Type} (spells : ι → List UInt8 → Prop) : List ι → List UInt8 → Prop
  | nil : Sequence spells [] []
  | cons {i : ι} {is : List ι} {bs bs' : List UInt8} (h : spells i bs) (h' : Sequence spells is bs') :
    Sequence spells (i :: is) (bs ++ bs')

section Sequences

variable {ι : Type} {spells : ι → List UInt8 → Prop} {i : ι} {is : List ι}
variable {bs bs' : List UInt8} {cs : List (List UInt8)}

theorem Sequence.one (h : spells i bs) (h' : Sequence spells is cs.flatten) :
    Sequence spells (i :: is) (bs :: cs).flatten := .cons h h'

theorem Sequence.two (h : spells i (bs ++ bs')) (h' : Sequence spells is cs.flatten) :
    Sequence spells (i :: is) (bs :: bs' :: cs).flatten := by
  rw [List.flatten_cons, List.flatten_cons, ← List.append_assoc]
  exact .cons h h'

theorem Sequence.foldlM_eq {step : List UInt8 → ι → Option (List UInt8)}
    (hstep : ∀ i bs rest, spells i bs → step (bs ++ rest) i = some rest) (h : Sequence spells is bs)
    (rest : List UInt8) : is.foldlM step (bs ++ rest) = some rest := by
  induction h with
  | nil => rfl
  | cons hi _ ih =>
    rw [List.append_assoc, List.foldlM_cons, hstep _ _ _ hi]
    exact ih

end Sequences

/-- The bytes of an item: those of a field, or those of the fields of a block behind their length -/
inductive Item.Spells : Item → List UInt8 → Prop
  | field {f : Field} {bs : List UInt8} (h : f.Spells bs) : Spells (.field f) bs
  | block {fs : List Field} {n : UInt32} {bs : List UInt8} (hlen : bs.length = n.toNat)
    (h : Sequence Field.Spells fs bs) : Spells (.block fs) (be32 n ++ bs)

/-- The bytes are a message of the layout. -/
def Spells (is : List Item) (bs : List UInt8) : Prop := Sequence Item.Spells is bs

/-- What is left of a buffer behind the field, if the field is all there. -/
def Field.skip (bs : List UInt8) : Field → Option (List UInt8)
  | .u32 => if 4 ≤ bs.length then some (bs.drop 4) else none
  | .u8 => if 1 ≤ bs.length then some (bs.drop 1) else none
  | .str max =>
    let n := (ofBe32 (bs.take 4)).toNat
    if n ≤ max ∧ 4 + n ≤ bs.length then some (bs.drop (4 + n)) else none

/-- What is left of a buffer behind the fields. -/
def skipFields (fs : List Field) (bs : List UInt8) : Option (List UInt8) := fs.foldlM Field.skip bs

/-- What is left of a buffer behind the item. -/
def Item.skip (bs : List UInt8) : Item → Option (List UInt8)
  | .field f => f.skip bs
  | .block fs =>
    let n := (ofBe32 (bs.take 4)).toNat
    if 4 + n ≤ bs.length ∧ (skipFields fs ((bs.drop 4).take n)).isSome then some (bs.drop (4 + n)) else none

/-- What is left of a buffer behind the items. -/
def skip (is : List Item) (bs : List UInt8) : Option (List UInt8) := is.foldlM Item.skip bs

/-- The buffer starts with the items. -/
def Fits (is : List Item) (bs : List UInt8) : Prop := (skip is bs).isSome

instance (is : List Item) (bs : List UInt8) : Decidable (Fits is bs) := inferInstanceAs (Decidable (_ = true))

theorem take_be32 (x : UInt32) (bs rest : List UInt8) : (be32 x ++ bs ++ rest).take 4 = be32 x := by
  rw [List.append_assoc]
  exact List.take_left' (be32_length x)

theorem Field.Spells.skip {f : Field} {bs : List UInt8} (h : f.Spells bs) (rest : List UInt8) :
    Field.skip (bs ++ rest) f = some rest := by
  cases h with
  | u32 x => simp [Field.skip, List.drop_left' (be32_length x)]
  | u8 b => simp [Field.skip]
  | @str max n s hlen hmax =>
    have hall : (be32 n ++ s ++ rest).length = 4 + n.toNat + rest.length := by simp [hlen, Nat.add_assoc]
    have hdrop : (be32 n ++ s ++ rest).drop (4 + n.toNat) = rest := List.drop_left' (by simp [hlen])
    simp only [Field.skip, take_be32, ofBe32_be32, hdrop]
    exact if_pos ⟨by omega, by omega⟩

theorem Item.Spells.skip {i : Item} {bs : List UInt8} (h : i.Spells bs) (rest : List UInt8) :
    Item.skip (bs ++ rest) i = some rest := by
  cases h with
  | field hf => exact hf.skip rest
  | @block fs n bs hlen hfs =>
    have hall : (be32 n ++ bs ++ rest).length = 4 + n.toNat + rest.length := by simp [hlen, Nat.add_assoc]
    have hdrop : (be32 n ++ bs ++ rest).drop (4 + n.toNat) = rest := List.drop_left' (by simp [hlen])
    have hblock : ((be32 n ++ bs ++ rest).drop 4).take n.toNat = bs := by
      rw [List.append_assoc, List.drop_left' (be32_length n)]
      exact List.take_left' hlen
    have hskip : skipFields fs bs = some [] := by
      have hfold := Sequence.foldlM_eq (fun _ _ rest hf => Field.Spells.skip hf rest) hfs []
      rwa [List.append_nil] at hfold
    simp only [Item.skip, take_be32, ofBe32_be32, hblock, hdrop, hskip]
    exact if_pos ⟨by omega, rfl⟩

theorem Spells.fits {is : List Item} {bs : List UInt8} (h : Spells is bs) (rest : List UInt8) :
    Fits is (bs ++ rest) := by
  have hskip : skip is (bs ++ rest) = some rest := Sequence.foldlM_eq (fun _ _ rest hi => hi.skip rest) h rest
  rw [Fits, hskip]
  rfl

/-- The reader accepts exactly the buffers that start with the items, and stops behind these. -/
def Follows (d : Reader α) (is : List Item) : Prop :=
  ∀ bs, (d bs).toOption.map Prod.snd = skip is bs

variable {is js : List Item} {fs : List Field}

theorem Follows.pure (a : α) : Follows (Pure.pure a) [] := fun _ => rfl

theorem Follows.u32_bind {f : UInt32 → Reader β} (h : ∀ x, Follows (f x) js) :
    Follows (Reader.u32 >>= f) (.field .u32 :: js) := by
  intro bs
  rw [Reader.u32_bind, skip, List.foldlM_cons, Item.skip, Field.skip]
  split
  · exact h _ _
  · rfl

theorem Follows.u8_bind {f : UInt8 → Reader β} (h : ∀ x, Follows (f x) js) :
    Follows (Reader.u8 >>= f) (.field .u8 :: js) := by
  intro bs
  rw [Reader.u8, bind_assoc, Reader.take_bind, skip, List.foldlM_cons, Item.skip, Field.skip]
  simp only [pure_bind]
  split
  · exact h _ _
  · rfl

theorem Follows.str_bind {max : Nat} {f : UInt32 → CharArr max → Reader β} (h : ∀ n s, Follows (f n s) js) :
    Follows (Reader.u32 >>= fun n => Reader.array max n.toNat >>= fun s => f n s) (.field (.str max) :: js) := by
  intro bs
  rw [Reader.u32_bind, skip, List.foldlM_cons, Item.skip, Field.skip]
  by_cases hfit : (ofBe32 (bs.take 4)).toNat ≤ max ∧ 4 + (ofBe32 (bs.take 4)).toNat ≤ bs.length
  · rw [if_pos hfit, if_pos (by omega), Reader.array_bind, if_neg (by omega),
      if_pos (by rw [List.length_drop]; omega), List.drop_drop]
    exact h _ _ _
  · rw [if_neg hfit]
    split
    · rw [Reader.array_bind]
      split
      · rfl
      · rw [if_neg (by rw [List.length_drop]; omega)]
        rfl
    · rfl

theorem skip_map_field (fs : List Field) (bs : List UInt8) : skip (fs.map .field) bs = skipFields fs bs := by
  unfold skip skipFields
  rw [List.foldlM_map]
  rfl

theorem Follows.block_bind {d : Reader α} {f : UInt32 → α → Reader β} (hd : Follows d (fs.map .field))
    (h : ∀ n a, Follows (f n a) js) :
    Follows (Reader.u32 >>= fun n => Reader.take n.toNat >>= fun buf => Reader.within d buf >>= fun a => f n a)
      (.block fs :: js) := by
  intro bs
  have hbuf := hd ((bs.drop 4).take (ofBe32 (bs.take 4)).toNat)
  rw [skip_map_field] at hbuf
  rw [Reader.u32_bind, skip, List.foldlM_cons, Item.skip]
  by_cases hlen : 4 + (ofBe32 (bs.take 4)).toNat ≤ bs.length
  · rw [if_pos (by omega), Reader.take_bind, if_pos (by rw [List.length_drop]; omega), List.drop_drop, ← hbuf]
    simp only [hlen, true_and]
    show ((Reader.within d _ _ >>= fun x => f _ x.1 x.2) : Except Fault _).toOption.map _ = _
    unfold Reader.within
    cases d ((bs.drop 4).take (ofBe32 (bs.take 4)).toNat) with
    | error e => rfl
    | ok x => exact h _ _ _
  · have hno : ¬(4 + (ofBe32 (bs.take 4)).toNat ≤ bs.length ∧
        (skipFields fs ((bs.drop 4).take (ofBe32 (bs.take 4)).toNat)).isSome) := fun hc => hlen hc.1
    rw [if_neg hno]
    split
    · rw [Reader.take_bind, if_neg (by rw [List.length_drop]; omega)]
      rfl
    · rfl

theorem follows_getElem? {ds : List (Reader α)} {ls : List (List Item)} (h : List.Forall₂ Follows ds ls) (i : Nat) :
    (ds[i]? = none ∧ ls[i]? = none) ∨ ∃ d l, ds[i]? = some d ∧ ls[i]? = some l ∧ Follows d l := by
  induction h generalizing i with
  | nil => exact Or.inl ⟨rfl, rfl⟩
  | cons hd _ ih =>
    cases i with
    | zero => exact Or.inr ⟨_, _, rfl, rfl, hd⟩
    | succ i => exact ih i

/-- A reader that follows a layout is defined exactly where the layout fits. -/
theorem Follows.isOk_iff (h : Follows d is) (bs : List UInt8) : (∃ x, d bs = .ok x) ↔ Fits is bs := by
  rw [Fits, ← h bs]
  cases d bs <;> simp [Except.toOption]

end Wire
