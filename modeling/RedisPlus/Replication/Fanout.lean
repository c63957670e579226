import RedisPlus.Replication.Basic

/-!
# Fan-out to the replicas

`propagate` should send the encoded command once to every attached link, apart from those
that the send closes, and access no position outside `replicas_`. A link that closes is
erased from `replicas_` during the loop: the links after it move down one position, so the
next one is skipped, and the loop's end, which was taken at the start, is one past the new
end (`outside_fanOut_of_short`). Only the last link can close without harm
(`fannedOut_iff`).
-/

namespace RP.Net

variable {cfg : ServerConfig} {encoded : Bytes}

theorem length_links_send_le (link : ClientLink) (data : Bytes) (N : Net) :
    (N.send cfg link data).links.length ≤ N.links.length := by
  rw [links_send]
  split
  · exact List.length_filter_le ..
  · exact Nat.le_refl _

/-- Once there are fewer links than the loop has positions, it gets outside. -/
theorem outside_fanOut_of_short : ∀ {n i : Nat} {N : Net}, 0 < n → N.links.length < i + n →
    (N.fanOut cfg encoded n i).outside = true
  | n + 1, i, N, _, h => by
    rw [fanOut]
    cases hi : N.links[i]? with
    | none => rfl
    | some link =>
      have hlt : i < N.links.length := (List.getElem?_eq_some_iff.mp hi).1
      have hle := @length_links_send_le cfg link encoded N
      exact outside_fanOut_of_short (by omega) (by omega)

/-- The loop over the links `rest`, after `past`: where none but the last closes, all of them
are sent to. -/
theorem fanOut_of_fits : ∀ (rest past : List ClientLink) {N : Net}, N.links = past ++ rest →
    rest.Nodup → (∀ l ∈ rest, N.closed l = false) →
    (∀ l ∈ rest.dropLast, N.overflows cfg l encoded = false) →
    (N.fanOut cfg encoded rest.length past.length).outside = N.outside ∧
      ∀ l, (N.fanOut cfg encoded rest.length past.length).sent l =
        if l ∈ rest then N.sent l ++ encoded else N.sent l
  | [], _, _, _, _, _, _ => ⟨rfl, fun _ => rfl⟩
  | [a], past, N, hl, _, hopen, _ => by
    have ha := hopen a List.mem_cons_self
    have hstep : N.fanOut cfg encoded 1 past.length = N.send cfg a encoded := by
      simp [fanOut, hl]
    rw [List.length_singleton, hstep]
    refine ⟨outside_send .., fun l => ?_⟩
    rw [sent_send]
    simp [ha]
  | a :: b :: rest, past, N, hl, hd, hopen, hfits => by
    have ha := hopen a List.mem_cons_self
    have hfa := hfits a List.mem_cons_self
    obtain ⟨hab, hd'⟩ := List.nodup_cons.mp hd
    have hne {l : ClientLink} (h : l ∈ b :: rest) : l ≠ a := fun e => hab (e ▸ h)
    have hstep : N.fanOut cfg encoded (a :: b :: rest).length past.length =
        (N.send cfg a encoded).fanOut cfg encoded (b :: rest).length (past ++ [a]).length := by
      simp [fanOut, hl]
    have hl' : (N.send cfg a encoded).links = (past ++ [a]) ++ b :: rest := by
      rw [links_send, if_neg (by simp [hfa]), hl]; simp
    obtain ⟨hout, hsent⟩ := fanOut_of_fits (b :: rest) (past ++ [a]) hl' hd'
      (fun l h => by
        rw [closed_send, hopen l (List.mem_cons_of_mem _ h), hfa]; simp)
      (fun l h => by
        rw [overflows_send_of_ne (hne (List.mem_of_mem_dropLast h))]
        exact hfits l (List.mem_cons_of_mem _ h))
    rw [hstep]
    refine ⟨hout.trans (outside_send ..), fun l => ?_⟩
    rw [hsent, sent_send]
    by_cases hla : l = a
    · subst hla
      simp [hab, ha]
    · simp [hla]

/-- A link that closes before the last one takes the loop outside. -/
theorem outside_fanOut_of_overflows : ∀ (rest past : List ClientLink) {N : Net}, N.links = past ++ rest →
    rest.Nodup → (∃ l ∈ rest.dropLast, N.overflows cfg l encoded = true) →
    (N.fanOut cfg encoded rest.length past.length).outside = true
  | [], _, _, _, _, ⟨_, h, _⟩ => nomatch h
  | [_], _, _, _, _, ⟨_, h, _⟩ => nomatch h
  | a :: b :: rest, past, N, hl, hd, ⟨l, hmem, hover⟩ => by
    obtain ⟨hab, hd'⟩ := List.nodup_cons.mp hd
    have hstep : N.fanOut cfg encoded (a :: b :: rest).length past.length =
        (N.send cfg a encoded).fanOut cfg encoded (b :: rest).length (past ++ [a]).length := by
      simp [fanOut, hl]
    rw [hstep]
    by_cases ha : N.overflows cfg a encoded = true
    · refine outside_fanOut_of_short (by simp) ?_
      have hlt : (N.links.filter (· ≠ a)).length < N.links.length :=
        List.length_filter_lt_length_iff_exists.mpr ⟨a, by simp [hl], by simp⟩
      rw [links_send, if_pos ha]
      rw [hl] at hlt ⊢
      simp only [List.length_append, List.length_cons, List.length_nil] at hlt ⊢
      omega
    · have hl' : (N.send cfg a encoded).links = (past ++ [a]) ++ b :: rest := by
        rw [links_send, if_neg ha, hl]; simp
      refine outside_fanOut_of_overflows (b :: rest) (past ++ [a]) hl' hd' ⟨l, ?_, ?_⟩
      · rcases List.mem_cons.mp hmem with rfl | h
        · exact absurd hover ha
        · exact h
      · have hla : l ≠ a := by rintro rfl; exact ha hover
        rwa [overflows_send_of_ne hla]

/-! ## Propagation -/

@[simp] theorem overflows_advance (n : Nat) (l : ClientLink) (data : Bytes) (N : Net) :
    (N.advance n).overflows cfg l data = N.overflows cfg l data := rfl

theorem propagate_eq (args : Args) (N : Net) : N.propagate cfg args =
    (N.advance (encode args).length).fanOut cfg (encode args) N.links.length 0 := by
  unfold propagate
  split
  · rename_i h; rw [h]; rfl
  · rfl

/-- What is asked of a call of `propagate`. -/
structure FannedOut (cfg : ServerConfig) (args : Args) (N : Net) : Prop where
  once : ∀ l ∈ N.links, (N.propagate cfg args).closed l = false →
    (N.propagate cfg args).sent l = N.sent l ++ encode args
  inside : (N.propagate cfg args).outside = false

/-- Fan-out to distinct open links is right exactly when none of them but the last closes. -/
theorem fannedOut_iff {N : Net} (hd : N.links.Nodup) (hopen : ∀ l ∈ N.links, N.closed l = false)
    (hin : N.outside = false) (args : Args) :
    FannedOut cfg args N ↔ ∀ l ∈ N.links.dropLast, N.overflows cfg l (encode args) = false := by
  have hl : (N.advance (encode args).length).links = [] ++ N.links := rfl
  constructor
  · intro h l hmem
    by_contra hover
    have hout := outside_fanOut_of_overflows N.links [] hl hd ⟨l, hmem, by simpa using hover⟩
    have := h.inside
    rw [propagate_eq] at this
    exact absurd (hout.symm.trans this) (by decide)
  · intro hfits
    obtain ⟨hout, hsent⟩ := fanOut_of_fits N.links [] hl hd hopen hfits
    refine ⟨fun l hmem _ => ?_, ?_⟩
    · rw [propagate_eq]
      exact (hsent l).trans (if_pos hmem)
    · rw [propagate_eq]
      exact hout.trans hin

/-! ## Links that close -/

/-- A replication id of zeros. -/
def zeroReplid : Replid :=
  ⟨List.replicate 40 48, rfl, fun c hc => by rw [List.eq_of_mem_replicate hc]; decide⟩

/-- Replicas on the links 1 to `n`; the link 1 has a byte of output that is not yet written. -/
def fleet (n : Nat) : Net where
  repl := { replid := zeroReplid, replicas := (List.range n).map fun i => ⟨i + 1, [], 0, 0⟩ }
  sessions link := if link = 1 then { out := [43], writing := some 1 } else {}

/-- With room for 21 bytes, two replicas get a command of 20 bytes. -/
theorem fannedOut_two : FannedOut { maxOutputBuffer := 21 } [str "DEL", str "k"] (fleet 2) :=
  (fannedOut_iff (by decide) (by decide) rfl _).mpr (by decide)

/-- With room for 20 bytes the link 1 closes. The link 2 stays open and is not sent the
command, and the loop accesses the third of two positions. -/
theorem fleet_skips_second :
    let after := (fleet 3).propagate { maxOutputBuffer := 20 } [str "DEL", str "k"]
    2 ∈ after.links ∧ after.closed 2 = false ∧ after.sent 2 = [] ∧ after.outside = true := by
  decide

end RP.Net
