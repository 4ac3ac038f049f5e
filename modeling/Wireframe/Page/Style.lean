import Wireframe.Text.Basic

/-!
The stylesheet of every page: rules of a selector and declarations, printed without white space
between them.
-/

namespace Wireframe.Page

structure StyleRule where
  selector : String
  declarations : List String

/-- A selector, and its declarations in braces, each ended by a semicolon. -/
def StyleRule.print (r : StyleRule) : Text :=
  r.selector.toList ++ ['{'] ++ r.declarations.flatMap (fun d => d.toList ++ [';']) ++ ['}']

def styleRules : List StyleRule :=
  [⟨"html,body", ["margin:0", "padding:0", "background:#f8fafc", "color:#111827",
      "font:14px/1.45 \"SF Pro Text\",\"Segoe UI\",sans-serif"]⟩,
    ⟨".root", ["padding:10px", "display:grid", "gap:10px"]⟩,
    ⟨".group", ["display:flex", "gap:10px", "align-items:stretch", "min-width:0"]⟩,
    ⟨".section", ["display:grid", "gap:8px", "min-width:0"]⟩,
    ⟨".section.frame", ["border:1px solid #cfd8e3", "border-radius:10px", "padding:10px",
      "background:#fff"]⟩,
    ⟨".wt-row", ["display:flex", "gap:8px", "align-items:flex-start", "flex-wrap:wrap",
      "min-width:0"]⟩,
    ⟨".wt-cell", ["display:grid", "gap:6px", "min-width:0", "flex:0 1 auto"]⟩,
    ⟨".wt-grow", ["flex:1 1 220px"]⟩,
    ⟨".wt-input", ["display:grid", "gap:4px"]⟩,
    ⟨".wt-input label", ["font-size:12px", "color:#4b5563", "font-weight:600"]⟩,
    ⟨".wt-input input,.wt-input textarea,.wt-input select", ["font:inherit",
      "border:1px solid #d1d9e4", "border-radius:8px", "padding:7px 9px", "background:#fff"]⟩,
    ⟨".wt-input textarea", ["min-height:86px", "resize:vertical"]⟩,
    ⟨".wt-btn", ["display:inline-block", "border:1px solid #c8d2df", "border-radius:8px",
      "padding:7px 11px", "background:#fff", "font-weight:600", "color:#263142"]⟩,
    ⟨".wt-btn.primary", ["background:#0f766e", "border-color:#0f766e", "color:#f0fdfa"]⟩,
    ⟨".wt-choice", ["display:inline-flex", "align-items:center", "gap:6px", "color:#374151"]⟩,
    ⟨".wt-link", ["color:#1d4ed8", "text-decoration:underline"]⟩,
    ⟨".wt-icon", ["display:inline-block", "padding:2px 7px", "border:1px solid #d5dce7",
      "border-radius:999px", "background:#f3f6fb", "font-size:12px", "color:#334155"]⟩,
    ⟨".wt-badge", ["display:inline-block", "padding:2px 8px", "border-radius:999px",
      "background:#e9eef9", "color:#3248a8", "font-size:12px", "font-weight:600"]⟩,
    ⟨".wt-table", ["width:100%", "border-collapse:collapse", "background:#fff",
      "border:1px solid #d6dce6", "border-radius:8px", "overflow:hidden"]⟩,
    ⟨".wt-table th,.wt-table td", ["border:1px solid #d6dce6", "padding:6px 8px",
      "vertical-align:top", "text-align:left"]⟩,
    ⟨".wt-table th", ["background:#f1f5f9", "font-weight:700"]⟩,
    ⟨"hr", ["border:0", "border-top:1px solid #d7dce4", "margin:4px 0"]⟩,
    ⟨"h1,h2,h3,h4,h5,h6", ["margin:2px 0 0", "line-height:1.2"]⟩,
    ⟨"p", ["margin:0"]⟩,
    ⟨"ul,ol", ["margin:0", "padding-left:20px"]⟩]

def stylesheet : Text := styleRules.flatMap StyleRule.print

end Wireframe.Page
