import Mathlib.Tactic.Common
import Mathlib.Data.List.Infix

/-!
# Items in a stream

A receiver gets a stream in pieces. It keeps what it cannot use yet in a buffer, and takes the items
off the front of the buffer one by one. When it can tell an item that is not whole from one that is, it
makes no difference how the stream is cut.
-/

namespace Framing

variable {σ ι β : Type*}

/-- What is at the front of a buffer. -/
inductive Front (ι β : Type*) where
  /-- an item that is not whole yet, or nothing -/
  | more
  | refused
  | item (i : ι) (rest : List β)

/-- A receiver looks at the front of its buffer and handles the items. -/
structure Receiver (σ ι β : Type*) where
  front : List β → Front ι β
  /-- whether it goes on afterwards -/
  handle : σ → ι → σ × Bool
  refuse : σ → σ

namespace Receiver

variable (r : Receiver σ ι β)

/-- The loop over the items at the front; `fuel` is above their number. -/
def loop : ℕ → σ → List β → σ × List β
  | 0, s, buffer => (s, buffer)
  | fuel + 1, s, buffer =>
    match r.front buffer with
    | .more => (s, buffer)
    | .refused => (r.refuse s, buffer)
    | .item i rest =>
      match r.handle s i with
      | (s, true) => loop fuel s rest
      | (s, false) => (s, rest)

/-- A piece of the stream arrives. -/
def receive (s : σ × List β) (piece : List β) : σ × List β :=
  r.loop ((s.2 ++ piece).length + 1) s.1 (s.2 ++ piece)

/-- The receiver reads what is written by `encode`, and waits for what is only a part of it. -/
structure Reads (encode : ι → List β) (ok : ι → Prop) : Prop where
  whole : ∀ i rest, ok i → r.front (encode i ++ rest) = .item i rest
  part : ∀ i part, ok i → part <+: encode i → part ≠ encode i → r.front part = .more
  nonempty : ∀ i, ok i → encode i ≠ []

/-- The beginning of one more item, and not all of it. -/
def Unfinished (encode : ι → List β) (ok : ι → Prop) (tail : List β) : Prop :=
  ∃ i, ok i ∧ tail <+: encode i ∧ tail ≠ encode i

variable {r} {encode : ι → List β} {ok : ι → Prop} {items : List ι} {tail buffer rest : List β}
  {s : σ}

/-- The first of the items that are still to come is not whole in the buffer. -/
def Waits (encode : ι → List β) (items : List ι) (buffer : List β) : Prop :=
  ∀ i ∈ items.head?, buffer <+: encode i ∧ buffer ≠ encode i

/-- At the end of the stream nothing is to come. -/
lemma Waits.items_eq_nil (h : Waits encode items (items.flatMap encode ++ tail)) : items = [] := by
  cases items with
  | nil => rfl
  | cons i items =>
    obtain ⟨hpre, hne⟩ := h i rfl
    rw [List.flatMap_cons, List.append_assoc] at hpre hne
    have hlen := hpre.length_le
    rw [List.length_append] at hlen
    exact absurd (hpre.eq_of_length (by rw [List.length_append]; omega)) hne

/-- What the loop does with a part of the stream. -/
lemma Reads.loop (h : r.Reads encode ok) (hok : ∀ i ∈ items, ok i)
    (hgo : ∀ s, ∀ i ∈ items, (r.handle s i).2 = true) (htail : Unfinished encode ok tail) {fuel : ℕ}
    (hfuel : buffer.length < fuel) (hstream : buffer ++ rest = items.flatMap encode ++ tail) (s : σ) :
    ∃ done left buffer', items = done ++ left ∧
      r.loop fuel s buffer = (done.foldl (fun s i => (r.handle s i).1) s, buffer') ∧
      buffer' ++ rest = left.flatMap encode ++ tail ∧ Waits encode left buffer' := by
  induction fuel generalizing items buffer s with
  | zero => cases hfuel
  | succ fuel ih =>
    cases items with
    | nil =>
      -- all that is left is a part of an item
      obtain ⟨i, hi, hpre, hne⟩ := htail
      have hbuffer : buffer <+: tail := ⟨rest, hstream⟩
      have hpart : buffer ≠ encode i := by
        rintro rfl
        exact hne (hpre.eq_of_length_le hbuffer.length_le)
      refine ⟨[], [], buffer, rfl, ?_, hstream, fun _ hhead => by cases hhead⟩
      rw [Receiver.loop, h.part i buffer hi (hbuffer.trans hpre) hpart]
      rfl
    | cons i items =>
      have hi := hok i List.mem_cons_self
      have hstream' : buffer ++ rest = encode i ++ (items.flatMap encode ++ tail) := by
        rw [hstream, List.flatMap_cons, List.append_assoc]
      by_cases hwhole : encode i <+: buffer
      · obtain ⟨behind, rfl⟩ := hwhole
        rw [List.append_assoc] at hstream'
        have hrest := List.append_cancel_left hstream'
        have hpos := List.length_pos_iff.mpr (h.nonempty i hi)
        rw [List.length_append] at hfuel
        obtain ⟨done, left, buffer', hitems, hloop, hleft, hwaits⟩ :=
          ih (fun x hx => hok x (List.mem_cons_of_mem _ hx))
            (fun s x hx => hgo s x (List.mem_cons_of_mem _ hx)) (by omega) hrest (r.handle s i).1
        refine ⟨i :: done, left, buffer', by rw [hitems, List.cons_append], ?_, hleft, hwaits⟩
        have hhandle : r.handle s i = ((r.handle s i).1, true) :=
          Prod.ext rfl (hgo s i List.mem_cons_self)
        rw [Receiver.loop, h.whole i behind hi]
        simp only
        rw [hhandle]
        exact hloop
      · have hshort : buffer <+: encode i :=
          (List.prefix_or_prefix_of_prefix (List.prefix_append buffer rest)
            ⟨_, hstream'.symm⟩).resolve_right hwhole
        have hne : buffer ≠ encode i := fun heq => hwhole (heq ▸ List.prefix_rfl)
        refine ⟨[], i :: items, buffer, rfl, ?_, hstream, fun x hx => ?_⟩
        · rw [Receiver.loop, h.part i buffer hi hshort hne]
          rfl
        · exact Option.some.inj hx ▸ ⟨hshort, hne⟩

/-- What has arrived of a stream is some items and a part of the next one. -/
lemma exists_unfinished (hok : ∀ i ∈ items, ok i) (htail : Unfinished encode ok tail)
    (h : buffer <+: items.flatMap encode ++ tail) :
    ∃ done left tail', items = done ++ left ∧ buffer = done.flatMap encode ++ tail' ∧
      Unfinished encode ok tail' := by
  induction items generalizing buffer with
  | nil =>
    obtain ⟨i, hi, hpre, hne⟩ := htail
    refine ⟨[], [], buffer, rfl, rfl, i, hi, List.IsPrefix.trans h hpre, ?_⟩
    rintro rfl
    exact hne (hpre.eq_of_length_le h.length_le)
  | cons i items ih =>
    rw [List.flatMap_cons, List.append_assoc] at h
    by_cases hwhole : encode i <+: buffer
    · obtain ⟨behind, rfl⟩ := hwhole
      rw [List.prefix_append_right_inj] at h
      obtain ⟨done, left, tail', rfl, rfl, hleft⟩ :=
        ih (fun x hx => hok x (List.mem_cons_of_mem _ hx)) h
      exact ⟨i :: done, left, tail', rfl, by rw [List.flatMap_cons, List.append_assoc], hleft⟩
    · have hshort : buffer <+: encode i :=
        (List.prefix_or_prefix_of_prefix h (List.prefix_append ..)).resolve_right hwhole
      refine ⟨[], i :: items, buffer, rfl, rfl, i, hok i List.mem_cons_self, hshort, ?_⟩
      rintro rfl
      exact hwhole List.prefix_rfl

/-- However the stream is cut, all items are handled in order, and the unfinished one is kept. -/
theorem Reads.foldl_receive (h : r.Reads encode ok) (hok : ∀ i ∈ items, ok i)
    (hgo : ∀ s, ∀ i ∈ items, (r.handle s i).2 = true) (htail : Unfinished encode ok tail)
    {pieces : List (List β)} (hstream : pieces.flatten = items.flatMap encode ++ tail) (s : σ) :
    pieces.foldl r.receive (s, []) = (items.foldl (fun s i => (r.handle s i).1) s, tail) := by
  have hbuffer : ∀ (pieces : List (List β)) (items : List ι) (buffer : List β) (s : σ),
      (∀ i ∈ items, ok i) → (∀ s, ∀ i ∈ items, (r.handle s i).2 = true) →
      buffer ++ pieces.flatten = items.flatMap encode ++ tail → Waits encode items buffer →
      pieces.foldl r.receive (s, buffer) =
        (items.foldl (fun s i => (r.handle s i).1) s, tail) := by
    intro pieces
    induction pieces with
    | nil =>
      intro items buffer s hok hgo hstream hwaits
      rw [List.flatten_nil, List.append_nil] at hstream
      subst hstream
      obtain rfl := hwaits.items_eq_nil
      rfl
    | cons piece pieces ih =>
      intro items buffer s hok hgo hstream hwaits
      rw [List.flatten_cons, ← List.append_assoc] at hstream
      obtain ⟨done, left, buffer', rfl, hloop, hleft, hwaits'⟩ :=
        h.loop hok hgo htail (Nat.lt_succ_self _) hstream s
      rw [List.foldl_cons, receive, hloop, List.foldl_append]
      exact ih left buffer' _ (fun i hi => hok i (List.mem_append_right _ hi))
        (fun s i hi => hgo s i (List.mem_append_right _ hi)) hleft hwaits'
  refine hbuffer pieces items [] s hok hgo hstream fun i hi => ⟨List.nil_prefix, fun hnil => ?_⟩
  exact h.nonempty i (hok i (List.mem_of_head? hi)) hnil.symm

end Receiver

end Framing
