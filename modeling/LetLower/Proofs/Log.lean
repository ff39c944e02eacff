import LetLower.Log
import LetLower.Proofs.Bindings
import LetLower.Proofs.Ty.Unify

/-!
# Logs that can be read

Inference records five kinds of events. Where the types that they speak of are plain, every line
about them has a text: those about a problem of unification, those about the problems that it leads
to, and those about the solutions that are composed on the way. So reading does not stop.
-/

namespace LetLower

inductive Event.IsPlain : Event → Prop
  | composed {newer older : Subst} (hn : newer.IsPlain) (ho : older.IsPlain) :
      IsPlain (.composed newer older)
  | generalized {c : Scheme} (hc : c.body.IsPlain) : IsPlain (.generalized c)
  | unified {a b : Ty} (ha : a.IsPlain) (hb : b.IsPlain) : IsPlain (.unified a b)
  | bound {recursive : Bool} {x : String} {c : Scheme} (hc : c.body.IsPlain) :
      IsPlain (.bound recursive x c)
  | inferred {t : Ty} {s : Subst} (ht : t.IsPlain) (hs : s.IsPlain) : IsPlain (.inferred t s)

theorem Ty.IsPlain.render? {t : Ty} (h : t.IsPlain) : t.render? = .ok t.render :=
  if_pos h.isKnown

theorem Scheme.render?_toTy {c : Scheme} (h : c.body.IsPlain) :
    c.toTy.render? = .ok c.toTy.render :=
  if_pos h.isKnown

theorem Subst.IsPlain.render? {s : Subst} (h : s.IsPlain) : s.render? = .ok s.render := by
  refine if_pos (List.all_eq_true.2 fun t ht => ?_)
  obtain ⟨x, hx⟩ := Bindings.mem_values.1 ht
  exact (h x t hx).isKnown

def LogLine.IsReadable (l : LogLine) : Prop := ∃ t, l.text = .ok t

namespace Event

theorem isReadable_map {channel : Channel} {level : LogLevel} {r : Except Fault String} {t : String}
    (h : r = .ok t) (f : String → String) : LogLine.IsReadable ⟨channel, level, r.map f⟩ :=
  ⟨f t, by rw [h]; rfl⟩

theorem isReadable_composedLines {newer older : Subst} (hn : newer.IsPlain) (ho : older.IsPlain) :
    ∀ l ∈ composedLines newer older, l.IsReadable := by
  intro l hl
  unfold composedLines at hl
  split at hl
  · cases hl
  · obtain rfl := List.mem_singleton.1 hl
    change ∃ t, composedText newer older = .ok t
    rw [composedText, hn.render?, ho.render?, (hn.compose ho).render?]
    exact ⟨_, rfl⟩

theorem unifiedText_eq {a b : Ty} (ha : a.IsPlain) (hb : b.IsPlain) :
    unifiedText a b = .ok s!"unify {a.render} ~ {b.render}" := by
  rw [unifiedText, ha.render?, hb.render?]
  rfl

/-- The problems that a plain problem leads to are plain, and so are their solutions. -/
theorem isReadable_unifiedLines {a b : Ty} (ha : a.IsPlain) (hb : b.IsPlain) :
    ∀ l ∈ unifiedLines a b, l.IsReadable := by
  fun_induction unifiedLines a b with
  | case1 a b ih =>
    refine List.forall_mem_cons.2 ⟨⟨_, unifiedText_eq ha hb⟩, ?_⟩
    split
    · rename_i a a' b b'
      have hs := Ty.solve_decides a b ha.1 hb.1
      refine List.forall_mem_append.2 ⟨ih.1 ha.1 hb.1, ?_⟩
      split
      · exact fun _ h => absurd h List.not_mem_nil
      · rename_i s heq
        rw [heq] at hs
        have ha' := ha.2.apply hs.isPlain
        have hb' := hb.2.apply hs.isPlain
        have hs' := Ty.solve_decides _ _ ha' hb'
        refine List.forall_mem_append.2 ⟨ih.2 s ha' hb', ?_⟩
        split
        · exact fun _ h => absurd h List.not_mem_nil
        · rename_i s' heq'
          rw [heq'] at hs'
          exact isReadable_composedLines hs'.isPlain hs.isPlain
    · exact fun _ h => absurd h List.not_mem_nil

theorem IsPlain.isReadable {e : Event} (h : e.IsPlain) : ∀ l ∈ e.lines, l.IsReadable := by
  cases h with
  | composed hn ho => exact isReadable_composedLines hn ho
  | unified ha hb => exact isReadable_unifiedLines ha hb
  | generalized hc => exact List.forall_mem_singleton.2 (isReadable_map (Scheme.render?_toTy hc) _)
  | bound hc => exact List.forall_mem_singleton.2 (isReadable_map (Scheme.render?_toTy hc) _)
  | @inferred t s ht hs =>
    refine List.forall_mem_singleton.2 ⟨s!"inferred {t.render} with {s.render}", ?_⟩
    rw [ht.render?, hs.render?]
    rfl

end Event

namespace Log

theorem untilFault_of_isReadable {ls : List (LogLine × NameSupply)}
    (h : ∀ p ∈ ls, p.1.IsReadable) : (untilFault ls).2 = none := by
  induction ls with
  | nil => rfl
  | cons p ls ih =>
    obtain ⟨⟨t, ht⟩, hls⟩ := List.forall_mem_cons.1 h
    rw [untilFault, ht]
    exact ih hls

theorem read_of_isPlain {log : List LogEntry} (h : ∀ e ∈ log, e.event.IsPlain) (level : LogLevel) :
    (read level log).2 = none := by
  refine untilFault_of_isReadable fun p hp => ?_
  obtain ⟨e, he, hp⟩ := List.mem_flatMap.1 hp
  obtain ⟨l, hl, rfl⟩ := List.mem_map.1 hp
  exact (h e he).isReadable l (List.mem_filter.1 hl |>.1)

end Log
end LetLower
