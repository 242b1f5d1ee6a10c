import Esdb.Stream.OpenStream

/-!
# The abstract stream, and the open stream's refinement of it

What a stream is for: a list of events, each with its back-pointers, laid out after the header
one record after another. `Log` is that list, newest first; `Log.tail` is the chain head of a
label (the offset of the newest event carrying it) and `Log.append` is the abstract `Write`,
which links the new event to the current chain heads. `Log.Linked` is the chain law: every
back-pointer an event stores is the chain head just before it, so it is 0 exactly for the event
that ends its label's chain (`Log.Linked.backPointer_eq_zero_iff`).

`Refines s es extra` says that the open stream `s` is the log `es`: its file is the header,
the records of `es` and then `extra` (bytes past the write offset, empty except after a torn
write is reopened), and its `offset`, `tails` and `length` are those of `es`.

* `refines_new`, `Refines.write` — `New` refines the empty log, and `Write` refines `append`.
* `Refines.of_data` — reads, which move only the file position, keep the refinement.
* `Runs s₀ W s` — `s` is reachable from `s₀` by the writes `W` (oldest first) with any reads
  in between; `Runs.refines`: from `New`, such an `s` refines `Log.ofWrites W`, and
  `Runs.refines_from`: from any stream that refines a log, it refines that log extended by `W`.
-/

namespace Esdb.Stream

open Esdb.Binary

/-- An abstract stream: the events written, newest first.
Source: spec §3 (Stream File), §4.4
Kind: D -/
abbrev Log := List Event

namespace Log

/-- The records of a log in file order, oldest first.
Source: spec §6
Kind: D -/
def records : Log → Bytes
  | [] => []
  | e :: es => records es ++ e.push

/-- The offset just past the last record: where the next one goes, and for `e :: es` the
offset of `e` is `endOffset es`.
Source: spec §4.4, Write algorithm
Kind: D -/
def endOffset : Log → Nat
  | [] => magicHeader.length
  | e :: es => endOffset es + e.length

/-- The chain head of a label: the offset of the newest event carrying it.
Source: spec §3, "tails"
Kind: D -/
def tail : Log → Bytes → Option Nat
  | [], _ => none
  | e :: es, L => if L ∈ GoMap.keys e.offsets then some (endOffset es) else tail es L

/-- The back-pointer map of a new event with labels `indexes`: each label ↦ its chain head,
0 if it has none.
Source: spec §4.4, Write algorithm step 3
Kind: D -/
def backPointers (es : Log) (indexes : List Bytes) : GoMap Bytes Nat :=
  indexes.foldl (fun m index => m.set index ((tail es index).getD 0)) []

/-- The abstract `Write`: the new event, linked to the current chain heads, becomes the head.
Source: spec §4.4, Write algorithm
Kind: D -/
def append (es : Log) (data : Bytes) (indexes : List Bytes) : Log :=
  newEvent data (backPointers es indexes) :: es

/-- The log written by a list of writes `(data, indexes)`, oldest first.
Source: spec §8, property 1
Kind: D -/
def ofWrites (W : List (Bytes × List Bytes)) : Log :=
  W.foldl (fun es w => append es w.1 w.2) []

/-- The chain law: each event's labels are distinct and each back-pointer it stores is the
chain head of that label just before the event was written.
Source: spec §3, "Back-pointer offsets"
Kind: D -/
def Linked : Log → Prop
  | [] => True
  | e :: es => (GoMap.keys e.offsets).Nodup ∧
      (∀ L ∈ GoMap.keys e.offsets, e.offsets.get? L = some ((tail es L).getD 0)) ∧ Linked es

@[simp] theorem records_nil : records [] = [] := rfl
@[simp] theorem records_cons (e : Event) (es : Log) : records (e :: es) = records es ++ e.push := rfl
@[simp] theorem endOffset_nil : endOffset [] = magicHeader.length := rfl
@[simp] theorem endOffset_cons (e : Event) (es : Log) :
    endOffset (e :: es) = endOffset es + e.length := rfl

theorem endOffset_eq (es : Log) : endOffset es = magicHeader.length + (records es).length := by
  induction es with
  | nil => rfl
  | cons e es ih => simp [ih, Nat.add_assoc]

/-- Past the header and the records of `es`, at offset `endOffset es`, is what follows them.
Source: none: infrastructure
Kind: L -/
theorem drop_endOffset (es : Log) (rest : Bytes) :
    (magicHeader ++ records es ++ rest).drop (endOffset es) = rest :=
  List.drop_left' (by rw [endOffset_eq, List.length_append])

/-- A chain head lies after the header and before the end of the log.
Source: spec §3, "the chain is strictly decreasing in offset"
Kind: L -/
theorem tail_bounds : ∀ {es : Log} {L : Bytes} {o : Nat}, tail es L = some o →
    magicHeader.length ≤ o ∧ o < endOffset es
  | [], _, _, h => by simp [tail] at h
  | e :: es, L, o, h => by
    have hpos := e.length_pos
    simp only [tail] at h
    split at h
    · cases h
      have : magicHeader.length ≤ endOffset es := by rw [endOffset_eq]; omega
      exact ⟨this, by simp only [endOffset_cons]; omega⟩
    · have := tail_bounds h
      exact ⟨this.1, by simp only [endOffset_cons]; omega⟩

@[simp] theorem mem_keys_backPointers (es : Log) (indexes : List Bytes) (L : Bytes) :
    L ∈ GoMap.keys (backPointers es indexes) ↔ L ∈ indexes := by
  simp [backPointers, GoMap.mem_keys_foldl_set]

theorem get?_backPointers (es : Log) (indexes : List Bytes) (L : Bytes) :
    (backPointers es indexes).get? L = if L ∈ indexes then some ((tail es L).getD 0) else none := by
  simp [backPointers, GoMap.get?_foldl_set]

theorem tail_append (es : Log) (data : Bytes) (indexes : List Bytes) (L : Bytes) :
    tail (append es data indexes) L = if L ∈ indexes then some (endOffset es) else tail es L := by
  simp [append, tail, newEvent]

theorem linked_append {es : Log} (h : Linked es) (data : Bytes) (indexes : List Bytes) :
    Linked (append es data indexes) := by
  refine ⟨GoMap.nodup_keys_foldl_set _ indexes List.nodup_nil, fun L hL => ?_, h⟩
  simp only [newEvent, mem_keys_backPointers] at hL
  simp [newEvent, get?_backPointers, hL]

/-- A label's chain head is 0, its default, exactly when no event carries the label.
Source: spec §3, "tails"
Kind: L -/
theorem tail_getD_eq_zero {L : Bytes} : ∀ {es : Log},
    (tail es L).getD 0 = 0 ↔ (es.filter fun e => L ∈ GoMap.keys e.offsets) = []
  | [] => by simp [tail]
  | e :: es => by
    by_cases hc : L ∈ GoMap.keys e.offsets
    · have : endOffset es ≠ 0 := by rw [endOffset_eq, magicHeader_length]; omega
      simp [tail, hc, this]
    · simpa [tail, hc] using tail_getD_eq_zero

/-- In a linked log, the back-pointer for `L` of an event of `L`'s chain is 0 exactly when the
event ends the chain: no older event carries `L`.
Source: spec §3, "Back-pointer offsets"
Kind: L -/
theorem Linked.backPointer_eq_zero_iff {L : Bytes} : ∀ {es : Log}, Linked es →
    ∀ {A B : List Event} {e : Event}, (es.filter fun e => L ∈ GoMap.keys e.offsets) = A ++ e :: B →
      ((e.offsets.get? L).getD 0 = 0 ↔ B = [])
  | [], _, A, _, _, h => by cases A <;> simp at h
  | e' :: es, ⟨_, hback, hl⟩, A, B, e, h => by
    by_cases hc : L ∈ GoMap.keys e'.offsets
    · rw [List.filter_cons_of_pos (by simpa using hc)] at h
      cases A with
      | nil =>
        obtain ⟨rfl, hB⟩ := List.cons.inj h
        rw [hback L hc, Option.getD_some, tail_getD_eq_zero, hB]
      | cons a A => exact hl.backPointer_eq_zero_iff (List.cons.inj h).2
    · rw [List.filter_cons_of_neg (by simpa using hc)] at h
      exact hl.backPointer_eq_zero_iff h

theorem ofWrites_snoc (W : List (Bytes × List Bytes)) (w : Bytes × List Bytes) :
    ofWrites (W ++ [w]) = append (ofWrites W) w.1 w.2 := by
  simp [ofWrites, List.foldl_append]

@[simp] theorem length_ofWrites (W : List (Bytes × List Bytes)) :
    (ofWrites W).length = W.length := by
  induction W using List.reverseRecOn with
  | nil => rfl
  | append_singleton W w ih => simp [ofWrites_snoc, append, ih]

theorem linked_ofWrites (W : List (Bytes × List Bytes)) : Linked (ofWrites W) := by
  induction W using List.reverseRecOn with
  | nil => trivial
  | append_singleton W w ih => rw [ofWrites_snoc]; exact linked_append ih _ _

end Log

/-- The open stream `s` is the log `es`: its file is the header, the records of `es`, then
`extra`; its offset, chain heads and count are those of `es`; it is open; `es` is linked.
Source: src/cluster/rotate_command.go `openStream`; spec §3
Kind: D -/
structure Refines (s : OpenStream) (es : Log) (extra : Bytes) : Prop where
  data : s.stream.data = magicHeader ++ es.records ++ extra
  offset : s.offset = es.endOffset
  tails : ∀ L, s.tails.get? L = es.tail L
  length : s.length = es.length
  isOpen : s.closed = false
  linked : es.Linked

theorem refines_new : Refines new [] [] where
  data := rfl
  offset := rfl
  tails _ := rfl
  length := rfl
  isOpen := rfl
  linked := trivial

/-- `Write` builds the back-pointers of the abstract `Write` from chain heads that agree.
Source: src/cluster/rotate_command.go `openStream.Write`
Kind: L -/
theorem backPointers_eq {tails : GoMap Bytes Nat} {es : Log} (h : ∀ L, tails.get? L = es.tail L)
    (indexes : List Bytes) : OpenStream.backPointers tails indexes = es.backPointers indexes := by
  unfold OpenStream.backPointers Log.backPointers
  simp only [h]

/-- `Write` on a stream that is the log `es` is the abstract `Write`: the record goes after
the last one (over the first bytes of `extra`), and `tails`, `offset` and `length` follow.
Source: src/cluster/rotate_command.go `openStream.Write`
Kind: L -/
theorem Refines.write {s : OpenStream} {es : Log} {extra : Bytes} (h : Refines s es extra)
    (data : Bytes) (indexes : List Bytes) :
    Refines (s.write data indexes).1 (es.append data indexes)
      (extra.drop (newEvent data (es.backPointers indexes)).length) := by
  have hf := @File.write_of_eq (s.stream.seek s.offset) (magicHeader ++ es.records)
    extra (by simpa [File.seek] using h.data)
    (by simp [File.seek, h.offset, Log.endOffset_eq]) (newEvent data (es.backPointers indexes)).push
  simp only [OpenStream.write, h.isOpen, backPointers_eq h.tails]
  refine ⟨?_, ?_, fun L => ?_, ?_, rfl, Log.linked_append h.linked _ _⟩
  · simp [hf, Log.append, List.append_assoc]
  · simp [Log.append, h.offset]
  · simp [OpenStream.setAll, GoMap.get?_foldl_set, Log.tail_append, h.tails, h.offset]
  · simp [Log.append, h.length]

/-- A stream whose file has the same bytes (only the position moved) is the same log.
Source: none: infrastructure
Kind: L -/
theorem Refines.of_data {s : OpenStream} {es : Log} {extra : Bytes} (h : Refines s es extra)
    {f : File} (hf : f.data = s.stream.data) : Refines { s with stream := f } es extra :=
  { h with data := hf.trans h.data }

/-! ## Reads move only the file position -/

theorem pullEvent_data (f : File) : (pullEvent f).2.data = f.data := rfl

theorem scanIndexLoop_data {index : Bytes} :
    ∀ {fuel off : Nat} {f f' : File} {es : List Event} {r : Except StreamError Unit},
      scanIndexLoop index fuel off f = some (es, f', r) → f'.data = f.data
  | 0, _, _, _, _, _, h => by simp [scanIndexLoop] at h
  | fuel + 1, off, f, f', es, r, h => by
    simp only [scanIndexLoop] at h
    split at h
    · split at h
      · rename_i e f'' hp
        obtain ⟨⟨es', f''', r'⟩, h1, h2⟩ := Option.map_eq_some'.mp h
        cases h2
        have := congrArg (·.2.data) hp
        simp only [pullEvent_data] at this
        rw [scanIndexLoop_data h1, ← this]; rfl
      · rename_i err f'' hp
        cases h
        have := congrArg (·.2.data) hp
        simp only [pullEvent_data] at this
        rw [← this]; rfl
    · cases h; rfl

theorem iterateLoop_data :
    ∀ {fuel : Nat} {f f' : File} {es : List Event} {err : PullError},
      iterateLoop fuel f = some (es, f', err) → f'.data = f.data
  | 0, _, _, _, _, h => by simp [iterateLoop] at h
  | fuel + 1, f, f', es, err, h => by
    simp only [iterateLoop] at h
    split at h
    · rename_i e f'' hp
      obtain ⟨⟨es', f''', r'⟩, h1, h2⟩ := Option.map_eq_some'.mp h
      cases h2
      have := congrArg (·.2.data) hp
      simp only [pullEvent_data] at this
      rw [iterateLoop_data h1, ← this]
    · rename_i err' f'' hp
      cases h
      have := congrArg (·.2.data) hp
      simp only [pullEvent_data] at this
      rw [← this]

theorem OpenStream.scanIndex_stream {s s' : OpenStream} {index : Bytes} {fuel : Nat}
    {es : List Event} {r : Except StreamError Unit} (h : s.scanIndex index fuel = some (es, s', r)) :
    s' = { s with stream := s'.stream } ∧ s'.stream.data = s.stream.data := by
  obtain ⟨⟨es', f, r'⟩, h1, h2⟩ := Option.map_eq_some'.mp h
  cases h2
  exact ⟨rfl, scanIndexLoop_data h1⟩

theorem OpenStream.iterate_stream {s s' : OpenStream} {fuel : Nat}
    {es : List Event} {r : Except StreamError Unit} (h : s.iterate fuel = some (es, s', r)) :
    s' = { s with stream := s'.stream } ∧ s'.stream.data = s.stream.data := by
  obtain ⟨⟨es', f, r'⟩, h1, h2⟩ := Option.map_eq_some'.mp h
  cases h2
  exact ⟨rfl, by simpa [File.seek] using iterateLoop_data h1⟩

/-! ## Runs -/

/-- `Runs s₀ W s`: the stream `s` is reached from `s₀` by the writes `W` (data and labels,
oldest first), with `ScanIndex` and `Iterate` calls anywhere in between.
Source: src/cluster/rotate_command.go `openStream.Write`, `ScanIndex`, `Iterate`
Kind: D -/
inductive Runs (s₀ : OpenStream) : List (Bytes × List Bytes) → OpenStream → Prop
  | refl : Runs s₀ [] s₀
  | write {W : List (Bytes × List Bytes)} {s : OpenStream} (data : Bytes) (indexes : List Bytes) :
      Runs s₀ W s → Runs s₀ (W ++ [(data, indexes)]) (s.write data indexes).1
  | scanIndex {W : List (Bytes × List Bytes)} {s s' : OpenStream} {es : List Event}
      {r : Except StreamError Unit} (index : Bytes) (fuel : Nat) :
      Runs s₀ W s → s.scanIndex index fuel = some (es, s', r) → Runs s₀ W s'
  | iterate {W : List (Bytes × List Bytes)} {s s' : OpenStream} {es : List Event}
      {r : Except StreamError Unit} (fuel : Nat) :
      Runs s₀ W s → s.iterate fuel = some (es, s', r) → Runs s₀ W s'

/-- The abstract `Write`s of `W`, in order, on the log `es`.
Source: spec §4.4, Write algorithm
Kind: D -/
def Log.appendAll (es : Log) (W : List (Bytes × List Bytes)) : Log :=
  W.foldl (fun es w => es.append w.1 w.2) es

theorem Log.ofWrites_append (A B : List (Bytes × List Bytes)) :
    Log.ofWrites (A ++ B) = (Log.ofWrites A).appendAll B := by
  simp [Log.ofWrites, Log.appendAll, List.foldl_append]

/-- From a stream that is the log `es`, the writes `W` (with any reads) reach a stream that is
`es` followed by the abstract writes of `W`, with some bytes left past the write offset.
Source: src/cluster/rotate_command.go `openStream`
Kind: L -/
theorem Runs.refines_from {s₀ s : OpenStream} {W : List (Bytes × List Bytes)} (h : Runs s₀ W s)
    {es : Log} {extra : Bytes} (h₀ : Refines s₀ es extra) :
    ∃ extra', Refines s (es.appendAll W) extra' := by
  induction h with
  | refl => exact ⟨extra, h₀⟩
  | write data indexes _ ih =>
    obtain ⟨extra', ih⟩ := ih
    exact ⟨_, by simpa [Log.appendAll, List.foldl_append] using ih.write data indexes⟩
  | scanIndex _ _ _ hs ih =>
    obtain ⟨extra', ih⟩ := ih
    obtain ⟨hs', hd⟩ := OpenStream.scanIndex_stream hs
    rw [hs']; exact ⟨extra', ih.of_data hd⟩
  | iterate _ _ hs ih =>
    obtain ⟨extra', ih⟩ := ih
    obtain ⟨hs', hd⟩ := OpenStream.iterate_stream hs
    rw [hs']; exact ⟨extra', ih.of_data hd⟩

/-- Every stream reachable from `New` is the log of its writes, with nothing past the write
offset.
Source: src/cluster/rotate_command.go `openStream`
Kind: L -/
theorem Runs.refines {W : List (Bytes × List Bytes)} {s : OpenStream} (h : Runs new W s) :
    Refines s (Log.ofWrites W) [] := by
  induction h with
  | refl => exact refines_new
  | write data indexes _ ih => rw [Log.ofWrites_snoc]; simpa using ih.write data indexes
  | scanIndex _ _ _ hs ih =>
    obtain ⟨hs', hd⟩ := OpenStream.scanIndex_stream hs
    rw [hs']; exact ih.of_data hd
  | iterate _ _ hs ih =>
    obtain ⟨hs', hd⟩ := OpenStream.iterate_stream hs
    rw [hs']; exact ih.of_data hd

/-- `Write` only assigns labels (`tails[index] = v`) and reads leave `tails` alone, so the
labels of `tails` stay distinct.
Source: src/cluster/rotate_command.go `openStream.Write`
Kind: L -/
theorem Runs.nodup_tails {s₀ s : OpenStream} {W : List (Bytes × List Bytes)} (h : Runs s₀ W s)
    (h₀ : (GoMap.keys s₀.tails).Nodup) : (GoMap.keys s.tails).Nodup := by
  induction h with
  | refl => exact h₀
  | write data indexes _ ih =>
    unfold OpenStream.write; split
    · exact ih
    · exact GoMap.nodup_keys_foldl_set _ indexes ih
  | scanIndex _ _ _ hs ih => rw [(OpenStream.scanIndex_stream hs).1]; exact ih
  | iterate _ _ hs ih => rw [(OpenStream.iterate_stream hs).1]; exact ih

end Esdb.Stream
