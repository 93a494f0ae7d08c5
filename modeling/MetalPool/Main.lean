import MetalPool.Manifest
/-!
# The command line

Prints the manifest of the record type.
-/

def main : IO Unit := IO.print MetalPool.Manifest.text
