import Mathlib.Algebra.GroupWithZero.Nat
import Mathlib.Data.List.Basic

/-! Buffers: little-endian words, checked slices, the runs of values that stand
at an offset, and in-place writes that fail when they leave the buffer. -/

namespace Bytes

def leBytes : Nat → Nat → List UInt8
  | 0, _ => []
  | width + 1, value => UInt8.ofNat value :: leBytes width (value / 256)

def leNat : List UInt8 → Nat
  | [] => 0
  | b :: bs => b.toNat + 256 * leNat bs

@[simp]
theorem length_leBytes (width value : Nat) : (leBytes width value).length = width := by
  induction width generalizing value with
  | zero => rfl
  | succ width ih => simp [leBytes, ih]

theorem leNat_leBytes (width value : Nat) :
    leNat (leBytes width value) = value % 256 ^ width := by
  induction width generalizing value with
  | zero => simp [leBytes, leNat, Nat.mod_one]
  | succ width ih =>
    have hsplit := Nat.mod_mul (a := 256) (b := 256 ^ width) (x := value)
    have hpow : 256 ^ (width + 1) = 256 * 256 ^ width := by rw [Nat.pow_succ, Nat.mul_comm]
    simp [leBytes, leNat, ih, hpow, hsplit]

theorem leNat_lt (bs : List UInt8) : leNat bs < 256 ^ bs.length := by
  induction bs with
  | nil => simp [leNat]
  | cons b bs =>
    have hb := b.toNat_lt
    have hpow : 256 ^ (bs.length + 1) = 256 * 256 ^ bs.length := by
      rw [Nat.pow_succ, Nat.mul_comm]
    simp only [leNat, List.length_cons, hpow]
    omega

variable {α : Type*}

def slice (bs : List α) (start stop : Nat) : Option (List α) :=
  if start ≤ stop ∧ stop ≤ bs.length then some ((bs.drop start).take (stop - start)) else none

variable {bs xs out : List α} {start offset : Nat} {ps : List (Nat × List α)}

theorem slice_eq_some {stop : Nat} (h : slice bs start stop = some xs) :
    start ≤ stop ∧ stop ≤ bs.length ∧ xs.length = stop - start ∧ xs <:+: bs := by
  unfold slice at h
  split at h
  · next hrange =>
    obtain ⟨hle, hstop⟩ := hrange
    cases h
    refine ⟨hle, hstop, by simp; omega, ?_⟩
    exact ((List.take_prefix _ _).isInfix).trans (List.drop_suffix _ _).isInfix
  · exact absurd h (by simp)

theorem slice_of_le {stop : Nat} (hle : start ≤ stop) (hstop : stop ≤ bs.length) :
    ∃ xs, slice bs start stop = some xs :=
  ⟨_, if_pos ⟨hle, hstop⟩⟩

theorem length_flatten_of_length_eq {entries : List (List α)} {len : Nat}
    (h : ∀ e ∈ entries, e.length = len) : entries.flatten.length = entries.length * len := by
  induction entries with
  | nil => simp
  | cons e entries ih =>
    rw [List.flatten_cons, List.length_append, h e List.mem_cons_self,
      ih fun e he => h e (List.mem_cons_of_mem _ he), List.length_cons, Nat.succ_mul, Nat.add_comm]

def At (bs : List α) (offset : Nat) (xs : List α) : Prop :=
  offset + xs.length ≤ bs.length ∧ ∀ i < xs.length, bs[offset + i]? = xs[i]?

namespace At

variable {bs xs ys : List α} {offset : Nat}

theorem le (h : At bs offset xs) : offset + xs.length ≤ bs.length := h.1

theorem self (bs : List α) : At bs 0 bs := by
  refine ⟨by simp, ?_⟩
  intro i _
  rw [Nat.zero_add]

theorem left (h : At bs offset (xs ++ ys)) : At bs offset xs := by
  have hle := h.le
  rw [List.length_append] at hle
  refine ⟨by omega, ?_⟩
  intro i hi
  rw [h.2 i (by simp; omega), List.getElem?_append_left hi]

theorem right (h : At bs offset (xs ++ ys)) : At bs (offset + xs.length) ys := by
  have hle := h.le
  rw [List.length_append] at hle
  refine ⟨by omega, ?_⟩
  intro i hi
  have hget := h.2 (xs.length + i) (by simp; omega)
  rw [List.getElem?_append_right (by omega), Nat.add_sub_cancel_left] at hget
  rw [Nat.add_assoc, hget]

theorem append (h : At bs offset xs) (h' : At bs (offset + xs.length) ys) :
    At bs offset (xs ++ ys) := by
  have hle := h'.le
  refine ⟨by rw [List.length_append]; omega, ?_⟩
  intro i hi
  by_cases hlt : i < xs.length
  · rw [List.getElem?_append_left hlt, h.2 i hlt]
  · rw [List.length_append] at hi
    rw [List.getElem?_append_right (by omega), ← h'.2 (i - xs.length) (by omega)]
    congr 1
    omega

theorem inside {start : Nat} (hbase : At bs offset xs) (h : At bs (offset + start) ys)
    (hle : start + ys.length ≤ xs.length) : At xs start ys := by
  refine ⟨hle, ?_⟩
  intro i hi
  rw [← hbase.2 (start + i) (by omega), ← Nat.add_assoc, h.2 i hi]

theorem slice_eq {stop : Nat} (h : At bs offset xs) (hstop : stop = offset + xs.length) :
    slice bs offset stop = some xs := by
  have hle := h.le
  have hlen : stop - offset = xs.length := by omega
  rw [slice, if_pos ⟨by omega, by omega⟩, hlen]
  congr 1
  apply List.ext_getElem?
  intro i
  by_cases hi : i < xs.length
  · rw [List.getElem?_take_of_lt hi, List.getElem?_drop, h.2 i hi]
  · rw [List.getElem?_eq_none (by simp; omega), List.getElem?_eq_none (by omega)]

theorem drop_take (h : At bs offset xs) : (bs.drop offset).take xs.length = xs := by
  have hslice := h.slice_eq rfl
  rw [slice, if_pos ⟨by omega, h.le⟩, Nat.add_sub_cancel_left] at hslice
  exact Option.some.inj hslice

theorem of_slice {stop : Nat} (h : slice bs offset stop = some xs) : At bs offset xs := by
  obtain ⟨hle, hstop, hlen, _⟩ := slice_eq_some h
  refine ⟨by omega, ?_⟩
  intro i hi
  unfold slice at h
  rw [if_pos ⟨hle, hstop⟩] at h
  rw [← Option.some.inj h, List.getElem?_take_of_lt (by omega), List.getElem?_drop]

theorem getElem? {b : α} (h : At bs offset [b]) : bs[offset]? = some b := by
  simpa using h.2 0 (by simp)

theorem flatten {runs : List (List α)} {i : Nat} {run : List α} (h : At bs offset runs.flatten)
    (hi : runs[i]? = some run) : At bs (offset + (runs.take i).flatten.length) run := by
  induction runs generalizing offset i with
  | nil => simp at hi
  | cons head rest ih =>
    cases i with
    | zero =>
      obtain rfl : head = run := by simpa using hi
      simpa using h.left
    | succ =>
      have hrest := ih h.right (by simpa using hi)
      rw [List.take_succ_cons, List.flatten_cons, List.length_append, ← Nat.add_assoc]
      exact hrest

theorem entry {entries : List (List α)} {len i : Nat} {e : List α}
    (h : At bs offset entries.flatten) (hlen : ∀ e ∈ entries, e.length = len)
    (hi : entries[i]? = some e) : At bs (offset + i * len) e := by
  have hat := h.flatten hi
  rw [length_flatten_of_length_eq fun e he => hlen e (List.mem_of_mem_take he)] at hat
  obtain ⟨hlt, _⟩ := List.getElem?_eq_some_iff.mp hi
  rwa [List.length_take, Nat.min_eq_left (Nat.le_of_lt hlt)] at hat

end At

theorem At.take {n : Nat} (h : At bs offset xs) (hn : offset + xs.length ≤ n) :
    At (bs.take n) offset xs := by
  have hle := h.le
  refine ⟨by simp; omega, ?_⟩
  intro i hi
  rw [List.getElem?_take_of_lt (by omega), h.2 i hi]

def put (bs : List α) (offset : Nat) (xs : List α) : Option (List α) :=
  if offset + xs.length ≤ bs.length then
    some (bs.take offset ++ xs ++ bs.drop (offset + xs.length))
  else none

theorem put_getElem? (h : put bs offset xs = some out) (i : Nat) :
    out[i]? = if offset ≤ i ∧ i < offset + xs.length then xs[i - offset]? else bs[i]? := by
  unfold put at h
  split at h
  · next hle =>
    cases h
    have htake : (bs.take offset).length = offset := by simp; omega
    by_cases hlow : i < offset
    · rw [if_neg (by omega), List.append_assoc, List.getElem?_append_left (by omega),
        List.getElem?_take_of_lt hlow]
    · by_cases hmid : i < offset + xs.length
      · rw [if_pos (by omega), List.append_assoc, List.getElem?_append_right (by omega),
          List.getElem?_append_left (by omega), htake]
      · rw [if_neg (by omega), List.getElem?_append_right (by simp; omega), List.getElem?_drop,
          List.length_append, htake]
        congr 1
        omega
  · exact absurd h (by simp)

theorem put_length (h : put bs offset xs = some out) :
    offset + xs.length ≤ bs.length ∧ out.length = bs.length := by
  unfold put at h
  split at h
  · next hle =>
    cases h
    simp
    omega
  · exact absurd h (by simp)

theorem put_at (h : put bs offset xs = some out) : At out offset xs := by
  obtain ⟨hle, hlen⟩ := put_length h
  refine ⟨by omega, ?_⟩
  intro i hi
  rw [put_getElem? h, if_pos (by omega), Nat.add_sub_cancel_left]

theorem At.put {ys : List α} (h : At bs start ys) (hput : put bs offset xs = some out)
    (hapart : start + ys.length ≤ offset ∨ offset + xs.length ≤ start) : At out start ys := by
  obtain ⟨_, hlen⟩ := put_length hput
  refine ⟨by have := h.le; omega, ?_⟩
  intro i hi
  rw [put_getElem? hput, if_neg (by omega), h.2 i hi]

theorem put_eq_some (h : offset + xs.length ≤ bs.length) :
    ∃ out, put bs offset xs = some out := ⟨_, if_pos h⟩

theorem put_eq_none (h : ¬ offset + xs.length ≤ bs.length) : put bs offset xs = none := if_neg h

theorem put_bind_put (bs xs ys : List α) {next : Nat} (hnext : next = offset + xs.length) :
    ((put bs offset xs).bind fun out => put out next ys) = put bs offset (xs ++ ys) := by
  by_cases hle : offset + (xs ++ ys).length ≤ bs.length
  · have hlen : (xs ++ ys).length = xs.length + ys.length := List.length_append
    obtain ⟨mid, hmid⟩ : ∃ out, put bs offset xs = some out := put_eq_some (by omega)
    obtain ⟨_, hmidlen⟩ := put_length hmid
    obtain ⟨out, hout⟩ : ∃ out, put mid next ys = some out := put_eq_some (by omega)
    obtain ⟨whole, hwhole⟩ := put_eq_some hle
    rw [hmid, Option.bind_some, hout, hwhole]
    congr 1
    apply List.ext_getElem?
    intro i
    rw [put_getElem? hout, put_getElem? hmid, put_getElem? hwhole]
    split
    · rw [if_pos (by omega), List.getElem?_append_right (by omega)]
      congr 1
      omega
    · split
      · rw [if_pos (by omega), List.getElem?_append_left (by omega)]
      · rw [if_neg (by omega)]
  · rw [put_eq_none hle]
    rw [List.length_append] at hle
    cases hput : put bs offset xs with
    | none => rfl
    | some =>
      obtain ⟨_, hmidlen⟩ := put_length hput
      exact put_eq_none (by omega)

theorem put_trans {ys mid : List α} {next : Nat} (h : put bs offset xs = some mid)
    (h' : put mid next ys = some out) (hnext : next = offset + xs.length) :
    put bs offset (xs ++ ys) = some out := by
  rw [← put_bind_put bs xs ys hnext, h, Option.bind_some, h']

theorem put_bind_comm (bs xs ys : List α) (h : offset + xs.length ≤ start) :
    ((put bs start ys).bind fun out => put out offset xs) =
      (put bs offset xs).bind fun out => put out start ys := by
  by_cases hle : start + ys.length ≤ bs.length
  · obtain ⟨left, hleft⟩ : ∃ out, put bs offset xs = some out := put_eq_some (by omega)
    obtain ⟨right, hright⟩ := put_eq_some hle
    obtain ⟨_, hleftlen⟩ := put_length hleft
    obtain ⟨_, hrightlen⟩ := put_length hright
    obtain ⟨out, hout⟩ : ∃ out, put right offset xs = some out := put_eq_some (by omega)
    obtain ⟨out', hout'⟩ : ∃ out, put left start ys = some out := put_eq_some (by omega)
    rw [hleft, hright, Option.bind_some, Option.bind_some, hout, hout']
    congr 1
    apply List.ext_getElem?
    intro i
    rw [put_getElem? hout, put_getElem? hright, put_getElem? hout', put_getElem? hleft]
    by_cases hx : offset ≤ i ∧ i < offset + xs.length
    · rw [if_pos hx, if_neg (by omega), if_pos hx]
    · rw [if_neg hx, if_neg hx]
  · rw [put_eq_none hle, Option.bind_none]
    cases hput : put bs offset xs with
    | none => rfl
    | some =>
      obtain ⟨_, hleftlen⟩ := put_length hput
      exact (put_eq_none (by omega)).symm

/-- From `offset` on, `f` writes exactly `xs` and returns the buffer as `wrap` of it. -/
def Writes {σ : Type*} (f : List α → Option σ) (wrap : List α → σ) (offset : Nat) (xs : List α) :
    Prop :=
  ∀ bs, offset ≤ bs.length → f bs = (put bs offset xs).map wrap

namespace Writes

variable {σ σ' : Type _} {f : List α → Option σ} {wrap : List α → σ} {wrap' : List α → σ'}
  {offset : Nat} {xs ys : List α}

theorem put (offset : Nat) (xs : List α) :
    Writes (fun bs => Bytes.put bs offset xs) id offset xs := by
  intro bs _
  rw [Option.map_id, id]

theorem nil (wrap : List α → σ) (offset : Nat) :
    Writes (fun bs => some (wrap bs)) wrap offset [] := by
  intro bs h
  simp [Bytes.put, h]

theorem seq {g : σ → Option σ'} (hf : Writes f wrap offset xs) (next : Nat)
    (hg : Writes (fun bs => g (wrap bs)) wrap' next ys) (hnext : next = offset + xs.length) :
    Writes (fun bs => f bs >>= g) wrap' offset (xs ++ ys) := by
  intro bs hle
  rw [← put_bind_put bs xs ys hnext]
  change (f bs).bind g = _
  rw [hf bs hle]
  cases hput : Bytes.put bs offset xs with
  | none => rfl
  | some out =>
    obtain ⟨_, hlen⟩ := put_length hput
    exact hg out (by omega)

theorem eq_some {bs : List α} {r : σ} (hf : Writes f wrap offset xs) (hle : offset ≤ bs.length)
    (h : f bs = some r) : ∃ out, Bytes.put bs offset xs = some out ∧ wrap out = r := by
  rw [hf bs hle] at h
  exact Option.map_eq_some_iff.mp h

end Writes

def WritesBoth {σ : Type*} (f : List α → Option σ) (wrap : List α → σ) (offset : Nat) (xs : List α)
    (start : Nat) (ys : List α) : Prop :=
  ∀ bs, start ≤ bs.length →
    f bs = ((put bs offset xs).bind fun out => put out start ys).map wrap

namespace WritesBoth

variable {σ : Type _} {f : List α → Option (List α)} {r : List α → Option σ} {wrap : List α → σ}
  {offset start : Nat} {xs ys zs : List α}

theorem nil (wrap : List α → σ) (h : offset ≤ start) :
    WritesBoth (fun bs => some (wrap bs)) wrap offset [] start [] := by
  intro bs hle
  have hoff : offset ≤ bs.length := Nat.le_trans h hle
  simp [put, hle, hoff]

theorem table (hf : Writes f id offset xs) (next : Nat) (hr : WritesBoth r wrap next zs start ys)
    (hnext : next = offset + xs.length) (hle : offset ≤ start) :
    WritesBoth (fun bs => f bs >>= r) wrap offset (xs ++ zs) start ys := by
  intro bs hstart
  change (f bs).bind r = _
  rw [hf bs (by omega), Option.map_id, id, ← put_bind_put bs xs zs hnext]
  cases hput : put bs offset xs with
  | none => rfl
  | some out =>
    obtain ⟨_, hlen⟩ := put_length hput
    exact hr out (by omega)

theorem heap (hf : Writes f id start ys) (next : Nat) (hr : WritesBoth r wrap offset xs next zs)
    (hnext : next = start + ys.length) (hapart : offset + xs.length ≤ start) :
    WritesBoth (fun bs => f bs >>= r) wrap offset xs start (ys ++ zs) := by
  intro bs hstart
  calc (f bs).bind r
      = (((put bs start ys).bind fun out => put out offset xs).bind
          fun out => put out next zs).map wrap := by
        rw [hf bs hstart, Option.map_id, id]
        cases hput : put bs start ys with
        | none => rfl
        | some out => exact hr out (by have := put_length hput; omega)
    _ = ((put bs offset xs).bind fun out =>
          (put out start ys).bind fun out => put out next zs).map wrap := by
        rw [put_bind_comm bs xs ys hapart, Option.bind_assoc]
    _ = _ := by simp only [put_bind_put _ _ _ hnext]

theorem eq_some {bs : List α} {s : σ} (hr : WritesBoth r wrap offset xs start ys)
    (hle : start ≤ bs.length) (h : r bs = some s) :
    ∃ mid out, put bs offset xs = some mid ∧ put mid start ys = some out ∧ wrap out = s := by
  rw [hr bs hle] at h
  obtain ⟨out, hout, hwrap⟩ := Option.map_eq_some_iff.mp h
  obtain ⟨mid, hmid, hput⟩ := Option.bind_eq_some_iff.mp hout
  exact ⟨mid, out, hmid, hput, hwrap⟩

end WritesBoth

def putAll (bs : List α) : List (Nat × List α) → Option (List α)
  | [] => some bs
  | (offset, xs) :: rest => (put bs offset xs).bind fun out => putAll out rest

theorem putAll_append (bs : List α) (ps qs : List (Nat × List α)) :
    putAll bs (ps ++ qs) = (putAll bs ps).bind fun out => putAll out qs := by
  induction ps generalizing bs with
  | nil => rfl
  | cons p ps ih =>
    simp only [List.cons_append, putAll, Option.bind_assoc]
    congr 1
    funext out
    exact ih out

theorem putAll_length (h : putAll bs ps = some out) : out.length = bs.length := by
  induction ps generalizing bs with
  | nil => rw [Option.some.inj h]
  | cons p ps ih =>
    obtain ⟨mid, hmid, h⟩ := Option.bind_eq_some_iff.mp h
    rw [ih h, (put_length hmid).2]

theorem putAll_eq_some (h : ∀ p ∈ ps, p.1 + p.2.length ≤ bs.length) :
    ∃ out, putAll bs ps = some out := by
  induction ps generalizing bs with
  | nil => exact ⟨bs, rfl⟩
  | cons p ps ih =>
    obtain ⟨mid, hmid⟩ := put_eq_some (h p List.mem_cons_self)
    obtain ⟨_, hlen⟩ := put_length hmid
    obtain ⟨out, hout⟩ := @ih mid fun q hq => by
      rw [hlen]
      exact h q (List.mem_cons_of_mem _ hq)
    refine ⟨out, ?_⟩
    rw [putAll, hmid, Option.bind_some, hout]

theorem At.putAll {ys : List α} (h : At bs start ys) (hput : putAll bs ps = some out)
    (hapart : ∀ p ∈ ps, start + ys.length ≤ p.1 ∨ p.1 + p.2.length ≤ start) : At out start ys := by
  induction ps generalizing bs with
  | nil =>
    cases hput
    exact h
  | cons p ps ih =>
    obtain ⟨mid, hmid, hput⟩ := Option.bind_eq_some_iff.mp hput
    exact ih (h.put hmid (hapart p List.mem_cons_self)) hput
      fun q hq => hapart q (List.mem_cons_of_mem _ hq)

theorem putAll_at (ps : List (Nat × List α)) {qs : List (Nat × List α)}
    (h : putAll bs (ps ++ (offset, xs) :: qs) = some out)
    (hapart : ∀ q ∈ qs, offset + xs.length ≤ q.1 ∨ q.1 + q.2.length ≤ offset) : At out offset xs := by
  rw [putAll_append] at h
  obtain ⟨mid, -, h⟩ := Option.bind_eq_some_iff.mp h
  obtain ⟨next, hnext, h⟩ := Option.bind_eq_some_iff.mp h
  exact (put_at hnext).putAll h hapart

theorem put_append_right (rest : List α) (h : offset + xs.length ≤ bs.length) :
    put (bs ++ rest) offset xs = (put bs offset xs).map (· ++ rest) := by
  rw [put, if_pos (by simp; omega), put, if_pos h, Option.map_some,
    List.take_append_of_le_length (by omega), List.drop_append_of_le_length h]
  simp only [List.append_assoc]

theorem putAll_append_right (rest : List α) (h : ∀ p ∈ ps, p.1 + p.2.length ≤ bs.length) :
    putAll (bs ++ rest) ps = (putAll bs ps).map (· ++ rest) := by
  induction ps generalizing bs with
  | nil => rfl
  | cons p ps ih =>
    obtain ⟨mid, hmid⟩ := put_eq_some (h p List.mem_cons_self)
    obtain ⟨_, hlen⟩ := put_length hmid
    rw [putAll, putAll, put_append_right rest (h p List.mem_cons_self), hmid, Option.map_some,
      Option.bind_some, Option.bind_some]
    refine ih fun q hq => ?_
    rw [hlen]
    exact h q (List.mem_cons_of_mem _ hq)

/-- In any buffer that has room for `total`, `f` makes these writes. -/
def Patches {σ : Type*} (f : List α → Option σ) (wrap : List α → σ) (total : Nat)
    (ps : List (Nat × List α)) : Prop :=
  ∀ bs, total ≤ bs.length → f bs = (putAll bs ps).map wrap

namespace Patches

variable {σ σ' : Type _} {f : List α → Option σ} {wrap : List α → σ} {wrap' : List α → σ'}
  {total : Nat} {ps qs : List (Nat × List α)}

theorem nil (wrap : List α → σ) (total : Nat) : Patches (fun bs => some (wrap bs)) wrap total [] :=
  fun _ _ => rfl

theorem of_writes {offset : Nat} {xs : List α} (hf : Writes f wrap offset xs)
    (hle : offset ≤ total) : Patches f wrap total [(offset, xs)] := by
  intro bs hlen
  rw [hf bs (by omega)]
  simp [putAll]

theorem of_writesBoth {offset start : Nat} {xs ys : List α}
    (hf : WritesBoth f wrap offset xs start ys) (hle : start ≤ total) :
    Patches f wrap total [(offset, xs), (start, ys)] := by
  intro bs hlen
  rw [hf bs (by omega)]
  simp [putAll]

theorem seq {g : σ → Option σ'} (hf : Patches f wrap total ps)
    (hg : Patches (fun bs => g (wrap bs)) wrap' total qs) :
    Patches (fun bs => f bs >>= g) wrap' total (ps ++ qs) := by
  intro bs hlen
  change (f bs).bind g = _
  rw [hf bs hlen, putAll_append]
  cases hput : putAll bs ps with
  | none => rfl
  | some out => exact hg out (by rw [putAll_length hput]; exact hlen)

end Patches

end Bytes
