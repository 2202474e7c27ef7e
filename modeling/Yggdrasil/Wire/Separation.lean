import Yggdrasil.Wire.Messages

/-!
# Signatures of announcements and of paths

A node signs two kinds of bytes with one key and without a tag: announcements and signature responses
(node || parent || seq || nonce || port), and paths (seq || ports || 0).
-/

namespace Yggdrasil
open List Option

def uvarints (data : Bytes) : Option (List UInt64) :=
  match data with
  | [] => some []
  | byte :: data =>
    match _h : decodeUvarint (byte :: data) with
    | none => none
    | some (value, len) =>
      if encodeUvarint value = (byte :: data).take len then
        (uvarints ((byte :: data).drop len)).map fun values => value :: values
      else none
termination_by data.length
decreasing_by
  have hlen := decodeUvarintLoop_length _h
  rw [length_drop, length_cons]
  omega

def readsAsPath (data : Bytes) : Bool :=
  match uvarints data with
  | some (_ :: path) => path.all (· ≠ 0)
  | _ => false

theorem uvarints_flatMap (values : List UInt64) : uvarints (values.flatMap encodeUvarint) = some values := by
  induction values with
  | nil => rw [flatMap_nil, uvarints]
  | cons v values ih =>
    have hdecode := decodeUvarint_encodeUvarint v (values.flatMap encodeUvarint)
    rw [flatMap_cons]
    obtain ⟨byte, data, hcons⟩ := exists_cons_of_ne_nil
      (append_ne_nil_of_left_ne_nil (encodeUvarint_ne_nil v) (values.flatMap encodeUvarint))
    rw [hcons] at hdecode ⊢
    rw [uvarints]
    split
    next h => exact absurd (h.symm.trans hdecode) (by simp)
    next value len h =>
      cases h.symm.trans hdecode
      rw [← hcons, take_left, if_pos rfl, drop_left, ih, map_some]

theorem flatMap_of_uvarints (data : Bytes) : ∀ {values : List UInt64}, uvarints data = some values →
    data = values.flatMap encodeUvarint := by
  induction h : data.length using Nat.strongRecOn generalizing data with
  | ind n ih =>
    intro values hvalues
    cases data with
    | nil =>
      rw [uvarints, some.injEq] at hvalues
      rw [← hvalues, flatMap_nil]
    | cons byte data =>
      rw [uvarints] at hvalues
      split at hvalues
      · cases hvalues
      next value len hdecode =>
        split at hvalues
        next hcanonical =>
          obtain ⟨rest, hrest, rfl⟩ := map_eq_some_iff.mp hvalues
          have hlen := decodeUvarintLoop_length hdecode
          have hdrop := ih _ (by rw [length_drop]; omega) _ rfl hrest
          rw [flatMap_cons, hcanonical, ← hdrop, take_append_drop]
        · cases hvalues

theorem readsAsPath_iff (data : Bytes) :
    readsAsPath data = true ↔ ∃ seq path, Ported path ∧ data = encodeUvarint seq ++ path.flatMap encodeUvarint := by
  constructor
  · intro h
    rw [readsAsPath] at h
    split at h
    next seq path hvalues =>
      refine ⟨seq, path, fun port hport => ?_, flatMap_of_uvarints data hvalues⟩
      exact of_decide_eq_true (all_eq_true.mp h port hport)
    · cases h
  rintro ⟨seq, path, hpath, rfl⟩
  rw [readsAsPath, ← flatMap_cons, uvarints_flatMap]
  exact all_eq_true.mpr fun port hport => decide_eq_true (hpath port hport)

def portless (ann : RouterAnnounce) : Bytes :=
  keyBytes ann.key ++ keyBytes ann.parent ++ encodeUvarint ann.seq ++ encodeUvarint ann.nonce

theorem bytesForSig_path_eq (seq : UInt64) (path : List PeerPort) :
    bytesForSig seq path = encodeUvarint seq ++ path.flatMap encodeUvarint ++ [0] := by
  rw [bytesForSig, encodePath, encodeUvarint_zero, append_assoc]

theorem bytesForSig_of_readsAsPath {ann : RouterAnnounce} (hzero : ann.port = 0)
    (h : readsAsPath (portless ann) = true) :
    ∃ seq path, Ported path ∧ ann.bytesForSig = bytesForSig seq path := by
  obtain ⟨seq, path, hported, heq⟩ := (readsAsPath_iff _).mp h
  have hann : ann.bytesForSig = portless ann ++ encodeUvarint ann.port := rfl
  exact ⟨seq, path, hported, by rw [hann, bytesForSig_path_eq, hzero, encodeUvarint_zero, heq]⟩

/-- **When the bytes of an announcement are the bytes of a path.** For no port but zero, and for port zero exactly if
what is before it reads as a path. -/
theorem signed_bytes_meet_iff (ann : RouterAnnounce) :
    (∃ seq path, Ported path ∧ ann.bytesForSig = bytesForSig seq path) ↔
      ann.port = 0 ∧ readsAsPath (portless ann) = true := by
  refine ⟨?_, fun h => bytesForSig_of_readsAsPath h.1 h.2⟩
  rintro ⟨seq, path, hported, heq⟩
  have hann : ann.bytesForSig = portless ann ++ encodeUvarint ann.port := rfl
  rw [hann, bytesForSig_path_eq] at heq
  have hzero : ann.port = 0 := by
    -- the last byte of the port is the terminator of the path
    obtain ⟨init, last, hport, -, hlast⟩ := encodeUvarint_getLast ann.port
    rw [hport, ← append_assoc] at heq
    exact hlast (head_eq_of_cons_eq (append_inj_right' heq rfl))
  rw [hzero, encodeUvarint_zero] at heq
  exact ⟨hzero, (readsAsPath_iff _).mpr ⟨seq, path, hported, append_inj_left' heq rfl⟩⟩

def rootAnnouncement (sig psig : Sig) : RouterAnnounce :=
  { key := 0xd75a980182b10ab7d54bfed3c964073a0ee172f3daa62325af021a68f707511a
    parent := 0xd75a980182b10ab7d54bfed3c964073a0ee172f3daa62325af021a68f707511a
    seq := 1, nonce := 1, port := 0, psig, sig }

theorem root_announcement_is_a_path :
    ∃ seq path, Ported path ∧ ∀ sig psig, (rootAnnouncement sig psig).bytesForSig = bytesForSig seq path ∧
      ∀ env : Env, (rootAnnouncement sig psig).check env = true →
        env.verify (rootAnnouncement sig psig).key (bytesForSig seq path) sig = true := by
  have hreads : readsAsPath (portless (rootAnnouncement 0 0)) = true := by decide +kernel
  obtain ⟨seq, path, hported, heq⟩ := bytesForSig_of_readsAsPath rfl hreads
  refine ⟨seq, path, hported, fun sig psig => ⟨heq, fun env hcheck => ?_⟩⟩
  rw [RouterAnnounce.check, if_neg fun h => h.2 rfl, Bool.and_eq_true] at hcheck
  rw [← heq]
  exact hcheck.1

end Yggdrasil
