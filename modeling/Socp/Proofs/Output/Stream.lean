import Mathlib.Data.List.Forall2
import Mathlib.Data.List.Infix
import Socp.Output.Target

/-!
What arrives of the blocks that are written. Every target but a stream takes them whole. A stream
makes of each block a row of attempts that go through its text from the start, up to the end or to
the first failure, so that it takes a prefix; with the next block it is tried anew.
-/

namespace Socp

/-! ### Places of a list -/

section

variable {β : Type} {P : List β → β → Prop}

theorem forall_place_cons {x : β} {xs : List β} :
    (∀ before b more, x :: xs = before ++ b :: more → P before b) ↔
      P [] x ∧ ∀ before b more, xs = before ++ b :: more → P (x :: before) b := by
  constructor
  · intro h
    refine ⟨h [] x xs rfl, ?_⟩
    rintro before b more rfl
    exact h (x :: before) b more rfl
  · rintro ⟨hx, hxs⟩ before b more heq
    obtain ⟨rfl, hcons⟩ | ⟨before, rfl, hrest⟩ := List.cons_eq_append_iff.1 heq
    · obtain ⟨rfl, -⟩ := List.cons.inj hcons
      exact hx
    · exact hxs before b more hrest

theorem forall_place_append {xs ys : List β} :
    (∀ before b more, xs ++ ys = before ++ b :: more → P before b) ↔
      (∀ before b more, xs = before ++ b :: more → P before b) ∧
        ∀ before b more, ys = before ++ b :: more → P (xs ++ before) b := by
  induction xs generalizing P with
  | nil => simp
  | cons x xs ih =>
      rw [List.cons_append, forall_place_cons, ih, forall_place_cons, and_assoc]
      rfl

end

/-! ### One text -/

/-- The attempts, in their order, that writing a text comes to. -/
structure Attempt.Cover (text : Text) (log : List Attempt) : Prop where
  /-- Each attempt offers what comes next in the text, and never nothing. -/
  offers : ∀ before a more, log = before ++ a :: more →
    a.offered ≠ [] ∧ before.flatMap Attempt.accepted ++ a.offered <+: text
  /-- What they take together is a prefix of the text. -/
  takes_prefix : log.flatMap Attempt.accepted <+: text
  whole_iff : log.flatMap Attempt.accepted = text ↔ ∀ a ∈ log, a.failed = false
  /-- Nothing is tried after a failure. -/
  failed_last : ∀ a ∈ log.dropLast, a.failed = false

namespace Attempt.Cover

variable {text rest : Text} {log more : List Attempt}

theorem nil : Cover [] [] where
  offers := by simp
  takes_prefix := List.prefix_rfl
  whole_iff := by simp
  failed_last := nofun

theorem refused (htext : text ≠ []) : Cover text [⟨text, 0⟩] where
  offers := forall_place_cons.2 ⟨⟨htext, List.prefix_rfl⟩, by simp⟩
  takes_prefix := List.nil_prefix
  whole_iff := by simpa [accepted, failed] using htext.symm
  failed_last := nofun

theorem cons {n : Nat} (htext : text ≠ []) (hn : n ≠ 0) (h : Cover (text.drop n) log) :
    Cover text (⟨text, n⟩ :: log) where
  offers := by
    refine forall_place_cons.2 ⟨⟨htext, List.prefix_rfl⟩, ?_⟩
    intro before a more hlog
    obtain ⟨hoffered, hprefix⟩ := h.offers before a more hlog
    refine ⟨hoffered, ?_⟩
    have hboth := (List.prefix_append_right_inj (text.take n)).2 hprefix
    rwa [List.take_append_drop, ← List.append_assoc] at hboth
  takes_prefix := by
    have hboth := (List.prefix_append_right_inj (text.take n)).2 h.takes_prefix
    rwa [List.take_append_drop] at hboth
  whole_iff := by
    have hsplit := @List.append_right_inj _ (log.flatMap accepted) (text.drop n) (text.take n)
    rw [List.take_append_drop] at hsplit
    rw [List.forall_mem_cons, List.flatMap_cons, accepted, hsplit, h.whole_iff]
    simp [failed, hn]
  failed_last := by
    intro a ha
    by_cases hnil : log = []
    · simp [hnil] at ha
    · rw [List.dropLast_cons_of_ne_nil hnil] at ha
      obtain rfl | ha := List.mem_cons.1 ha
      · simp [failed, hn]
      · exact h.failed_last a ha

/-- Once a text is written, it goes on with the rest. -/
theorem append (h : Cover text log) (hlog : ∀ a ∈ log, a.failed = false) (hmore : Cover rest more) :
    Cover (text ++ rest) (log ++ more) := by
  have hwhole := h.whole_iff.2 hlog
  constructor
  case offers =>
    refine forall_place_append.2 ⟨?_, ?_⟩
    · intro before a later hbefore
      obtain ⟨hoffered, hprefix⟩ := h.offers before a later hbefore
      exact ⟨hoffered, hprefix.trans (List.prefix_append ..)⟩
    · intro between a later hbetween
      obtain ⟨hoffered, hprefix⟩ := hmore.offers between a later hbetween
      refine ⟨hoffered, ?_⟩
      rwa [List.flatMap_append, hwhole, List.append_assoc, List.prefix_append_right_inj]
  case takes_prefix =>
    rw [List.flatMap_append, hwhole, List.prefix_append_right_inj]
    exact hmore.takes_prefix
  case whole_iff =>
    rw [List.flatMap_append, hwhole, List.append_cancel_left_eq, hmore.whole_iff,
      List.forall_mem_append, and_iff_right hlog]
  case failed_last =>
    intro a ha
    by_cases hnil : more = []
    · rw [hnil, List.append_nil] at ha
      exact hlog a (List.mem_of_mem_dropLast ha)
    · rw [List.dropLast_append_of_ne_nil hnil, List.mem_append] at ha
      exact ha.elim (hlog a) (hmore.failed_last a)

/-- After a failure the rest is given up. -/
theorem cut (h : Cover text log) (hlog : ¬∀ a ∈ log, a.failed = false) (rest : Text) :
    Cover (text ++ rest) log where
  offers := by
    intro before a more heq
    obtain ⟨hoffered, hprefix⟩ := h.offers before a more heq
    exact ⟨hoffered, hprefix.trans (List.prefix_append ..)⟩
  takes_prefix := h.takes_prefix.trans (List.prefix_append ..)
  whole_iff := by
    refine iff_of_false ?_ hlog
    intro heq
    -- less than the text alone has been taken
    have hlen := congrArg List.length heq
    have hle := h.takes_prefix.length_le
    rw [List.length_append] at hlen
    exact hlog (h.whole_iff.1 (h.takes_prefix.eq_of_length (by omega)))
  failed_last := h.failed_last

variable {blocks : List Text} {logs : List (List Attempt)}

theorem offered_ne_nil (h : List.Forall₂ Cover blocks logs) {a : Attempt} (ha : a ∈ logs.flatten) :
    a.offered ≠ [] := by
  induction h with
  | nil => cases ha
  | cons hcover _ ih =>
      rw [List.flatten_cons, List.mem_append] at ha
      obtain ha | ha := ha
      · obtain ⟨before, more, hlog⟩ := List.append_of_mem ha
        exact (hcover.offers before a more hlog).1
      · exact ih ha

theorem map_accepted (h : List.Forall₂ Cover blocks logs)
    (hnone : ∀ a ∈ logs.flatten, a.failed = false) : logs.map (·.flatMap accepted) = blocks := by
  induction h with
  | nil => rfl
  | cons hcover _ ih =>
      rw [List.flatten_cons, List.forall_mem_append] at hnone
      rw [List.map_cons, hcover.whole_iff.2 hnone.1, ih hnone.2]

end Attempt.Cover

namespace TextStream

def after (s : TextStream) (log : List Attempt) : TextStream :=
  { s with attempts := log.reverse ++ s.attempts }

/-- Each of these attempts, given in their order, takes as much as the stream accepts of it after
those before. -/
def Answers (s : TextStream) (log : List Attempt) : Prop :=
  ∀ before a more, log = before ++ a :: more →
    a.taken = min (s.accepts (before.reverse ++ s.attempts) a.offered) a.offered.length

theorem after_append (s : TextStream) (log more : List Attempt) :
    s.after (log ++ more) = (s.after log).after more := by
  simp [after]

theorem received_after (s : TextStream) (log : List Attempt) :
    (s.after log).received = s.received ++ log.flatMap Attempt.accepted := by
  simp [after, received]

theorem answers_nil (s : TextStream) : s.Answers [] := by simp [Answers]

theorem answers_singleton (s : TextStream) (text : Text) :
    s.Answers [⟨text, (s.write text).1⟩] :=
  forall_place_cons.2 ⟨rfl, by simp⟩

theorem Answers.append {s : TextStream} {log more : List Attempt} (h : s.Answers log)
    (hmore : (s.after log).Answers more) : s.Answers (log ++ more) := by
  refine forall_place_append.2 ⟨h, ?_⟩
  intro between a rest hbetween
  rw [List.reverse_append, List.append_assoc]
  exact hmore between a rest hbetween

theorem Answers.failed_eq_false {s : TextStream} {log : List Attempt} (h : s.Answers log)
    (haccepts : ∀ earlier offered, offered ≠ [] → s.accepts earlier offered ≠ 0) {a : Attempt}
    (ha : a ∈ log) (hoffered : a.offered ≠ []) : a.failed = false := by
  obtain ⟨before, more, hlog⟩ := List.append_of_mem ha
  have htaken := h before a more hlog
  have hpos := haccepts (before.reverse ++ s.attempts) a.offered hoffered
  have hlen : a.offered.length ≠ 0 := by simpa using hoffered
  rw [Attempt.failed, decide_eq_false_iff_not]
  omega

theorem eq_after_of_write {s t : TextStream} {text : Text} {taken : Nat}
    (h : s.write text = (taken, t)) : t = s.after [⟨text, taken⟩] := by
  obtain ⟨rfl, rfl⟩ := Prod.mk.inj h
  rfl

theorem answers_of_write {s t : TextStream} {text : Text} {taken : Nat}
    (h : s.write text = (taken, t)) : s.Answers [⟨text, taken⟩] := by
  obtain ⟨rfl, -⟩ := Prod.mk.inj h
  exact s.answers_singleton text

/-- Writing a text covers it, and tells whether all of it was taken. -/
theorem exists_cover_writeAll (s : TextStream) (text : Text) :
    ∃ log, (s.writeAll text).2 = s.after log ∧ s.Answers log ∧ Attempt.Cover text log ∧
      ((s.writeAll text).1 = true ↔ ∀ a ∈ log, a.failed = false) := by
  fun_induction writeAll s text with
  | case1 s => exact ⟨[], rfl, s.answers_nil, .nil, by simp⟩
  | case2 s text htext t hwrite =>
      exact ⟨[⟨text, 0⟩], eq_after_of_write hwrite, answers_of_write hwrite, .refused htext,
        by simp [Attempt.failed]⟩
  | case3 s text htext taken t hwrite hpos ih =>
      obtain ⟨log, hafter, hanswers, hcover, hok⟩ := ih
      have hfirst := answers_of_write hwrite
      rw [eq_after_of_write hwrite] at hafter hanswers
      refine ⟨⟨text, taken⟩ :: log, ?_, hfirst.append hanswers, hcover.cons htext hpos, ?_⟩
      · rw [eq_after_of_write hwrite, hafter, ← after_append]
        rfl
      · rw [hok, List.forall_mem_cons, and_iff_right (by simp [Attempt.failed, hpos])]

theorem exists_cover_writePieces (s : TextStream) (block : List Text) :
    ∃ log, (s.writePieces block).2 = s.after log ∧ s.Answers log ∧
      Attempt.Cover block.flatten log := by
  induction block generalizing s with
  | nil => exact ⟨[], rfl, s.answers_nil, .nil⟩
  | cons piece rest ih =>
      obtain ⟨log, hafter, hanswers, hcover, hok⟩ := s.exists_cover_writeAll piece
      rw [writePieces, List.flatten_cons]
      generalize s.writeAll piece = r at hafter hok
      obtain ⟨ok, t⟩ := r
      cases ok with
      | true =>
          obtain ⟨more, hmore, hlater, hrest⟩ := ih t
          rw [show t = s.after log from hafter] at hmore hlater
          refine ⟨log ++ more, ?_, hanswers.append hlater, hcover.append (hok.1 rfl) hrest⟩
          rw [show t = s.after log from hafter, after_append]
          exact hmore
      | false =>
          have hfailed : ¬∀ a ∈ log, a.failed = false := fun hall => nomatch hok.2 hall
          exact ⟨log, hafter, hanswers, hcover.cut hfailed rest.flatten⟩

end TextStream

/-! ### Many blocks -/

namespace PrintTarget

/-- How a target is left when the blocks have been written to it. -/
inductive Takes : PrintTarget → List Text → PrintTarget → Prop
  | console (printed blocks) :
      Takes (.console printed) blocks (.console (printed ++ blocks.flatten))
  | file (written blocks) : Takes (.file written) blocks (.file (written ++ blocks.flatten))
  | buffer (text blocks) : Takes (.buffer text) blocks (.buffer (text ++ blocks.flatten))
  | stream {s blocks logs} (hlogs : List.Forall₂ Attempt.Cover blocks logs)
      (hanswers : s.Answers logs.flatten) :
      Takes (.stream s) blocks (.stream (s.after logs.flatten))
  | sink (blocks) : Takes .sink blocks .sink

variable {before between after : PrintTarget} {blocks more : List Text}

theorem takes_nil (target : PrintTarget) : target.Takes [] target := by
  cases target with
  | console printed => simpa using Takes.console printed []
  | file written => simpa using Takes.file written []
  | buffer text => simpa using Takes.buffer text []
  | stream s => exact .stream .nil s.answers_nil
  | sink => exact .sink _

theorem takes_write (target : PrintTarget) (block : List Text) :
    target.Takes [block.flatten] (target.write block) := by
  cases target with
  | console printed => simpa [write] using Takes.console printed [block.flatten]
  | file written => simpa [write] using Takes.file written [block.flatten]
  | buffer text => simpa [write] using Takes.buffer text [block.flatten]
  | stream s =>
      obtain ⟨log, hafter, hanswers, hcover⟩ := s.exists_cover_writePieces block
      rw [← List.flatten_singleton (l := log)] at hafter hanswers
      rw [write, hafter]
      exact .stream (.cons hcover .nil) hanswers
  | sink => exact .sink _

theorem Takes.append (h : before.Takes blocks between) (hmore : between.Takes more after) :
    before.Takes (blocks ++ more) after := by
  cases h with
  | console printed =>
      cases hmore
      simpa using Takes.console printed (blocks ++ more)
  | file written =>
      cases hmore
      simpa using Takes.file written (blocks ++ more)
  | buffer text =>
      cases hmore
      simpa using Takes.buffer text (blocks ++ more)
  | stream hlogs hanswers =>
      cases hmore with
      | stream hmore hlater =>
          rw [← TextStream.after_append, ← List.flatten_append]
          refine .stream (List.rel_append hlogs hmore) ?_
          rw [List.flatten_append]
          exact hanswers.append hlater
  | sink =>
      cases hmore
      exact .sink _

theorem Takes.eq_of_nil (h : before.Takes [] after) : after = before := by
  cases h with
  | stream hlogs hanswers =>
      cases hlogs
      rfl
  | _ => simp

theorem Takes.buffered_eq {text : Text} (h : (PrintTarget.buffer text).Takes blocks after) :
    after.buffered = .ok (text ++ blocks.flatten) := by
  cases h
  rfl

/-- A stream has received a prefix of each block, all of it if no attempt fails. -/
theorem Takes.exists_parts {s : TextStream}
    (h : (PrintTarget.stream s).Takes blocks after) :
    ∃ t parts, after = .stream t ∧ t.accepts = s.accepts ∧
      t.received = s.received ++ parts.flatten ∧ List.Forall₂ (· <+: ·) parts blocks ∧
        ((∀ a ∈ t.attempts, a.failed = false) → parts = blocks) ∧
          ((∀ earlier offered, offered ≠ [] → s.accepts earlier offered ≠ 0) → parts = blocks) := by
  cases h with
  | @stream _ _ logs hlogs hanswers =>
      have hwhole := Attempt.Cover.map_accepted hlogs
      refine ⟨s.after logs.flatten, logs.map (·.flatMap Attempt.accepted), rfl, rfl, ?_, ?_, ?_, ?_⟩
      · rw [TextStream.received_after, List.flatMap_def, List.map_flatten, List.flatten_flatten,
          List.map_map]
        rfl
      · rw [List.forall₂_map_left_iff]
        exact .flip (hlogs.imp fun _ _ hcover => hcover.takes_prefix)
      · intro hattempts
        exact hwhole fun a ha => hattempts a (List.mem_append_left _ (List.mem_reverse.2 ha))
      · intro haccepts
        refine hwhole fun a ha => ?_
        exact hanswers.failed_eq_false haccepts ha (Attempt.Cover.offered_ne_nil hlogs ha)

end PrintTarget

end Socp
