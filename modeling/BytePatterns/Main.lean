import BytePatterns.Demo

def main (args : List String) : IO Unit := IO.print (BytePatterns.Demo.report args)
