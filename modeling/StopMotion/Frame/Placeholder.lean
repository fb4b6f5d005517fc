import StopMotion.Text.Quoted

/-!
# The placeholder

The still component that stands in for an artifact whose state could not be turned into
functions of the frame. It shows the artifact's name.
-/

namespace StopMotion.Frame

/-- The source of the placeholder of an artifact. -/
def placeholder (identifier : String) : String :=
  "import \x7b AbsoluteFill \x7d from 'remotion';\n" ++
  "\n" ++
  "export default function Placeholder() \x7b\n" ++
  "  return (\n" ++
  "    <AbsoluteFill\n" ++
  "      style=\x7b\x7b\n" ++
  "        justifyContent: 'center',\n" ++
  "        alignItems: 'center',\n" ++
  "        backgroundColor: '#101014',\n" ++
  "        color: '#e8e8ee',\n" ++
  "        fontSize: 48,\n" ++
  "      \x7d\x7d\n" ++
  "    >\n" ++
  "      \x7b" ++ Text.quoted identifier ++ "\x7d\n" ++
  "    </AbsoluteFill>\n" ++
  "  );\n" ++
  "\x7d\n"

end StopMotion.Frame
